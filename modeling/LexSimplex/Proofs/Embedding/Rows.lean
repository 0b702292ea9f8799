import LexSimplex.Proofs.Embedding.Basic
import LexSimplex.Proofs.Exchanges

/-!
# Rows of embedded tableaux

The operations on rows, carried out in both tableaux at once or in the larger one alone. Where
both attach, detach or substitute copies of the same, the tableau stays embedded, and its rows keep
their order; where the larger one does so with variables outside, nothing happens to the copy.

## Main results

* `Tableau.Embeds.redefine`, `Tableau.Embeds.discard`: both tableaux act.
* `Tableau.Embeds.redefine_outside`, `Tableau.Embeds.discard_outside`: the larger one acts alone.
-/

namespace LexSimplex

variable {K Q : Type}

/-- Replacing a variable in a row and renaming commute. -/
theorem Row.rename_substitute [Coefficient K] (m : Renaming) (r : Row K) (v : VarId)
    (d : LinExpr K) :
    (r.substitute v d).rename m = (r.rename m).substitute (m.var v) (d.rename m.var) := by
  rw [rename, substitute, substitute, rename, LinExpr.rename_substitute m.var_injective]

/-- Solving a row for another variable and renaming commute. -/
theorem Row.rename_redefined [Coefficient K] (m : Renaming) (r : Row K) (v : VarId) :
    (Tableau.redefined r v).rename m = Tableau.redefined (r.rename m) (m.var v) := by
  rw [Tableau.redefined, Tableau.redefined, rename, LinExpr.rename_exchange m.var_injective]
  rfl

/-- A variable changed, as it is found under new handles. -/
theorem VariablePool.get?_modify_of_injective {f : VarId → VarId} (hf : f.Injective)
    (p : VariablePool Q) (v w : VarId) (g : Variable Q → Variable Q) :
    (p.modify (f v) g).get? (f w) = (p.get? (f w)).map fun x => if w = v then g x else x := by
  rw [get?_modify]
  by_cases hw : w = v
  · simp only [hw, if_true]
  · rw [if_neg (hf.ne hw)]
    simp only [hw, if_false, Option.map_id']

/-- Rows with different handles are different renamed. -/
theorem Row.rename_ne_of_id_ne {m : Renaming} {r s : Row K} (hid : r.id ≠ s.id) :
    r.rename m ≠ s.rename m :=
  fun h => hid (m.row_injective (congrArg Row.id h))

/-- Variables that match still do after the same rows were noted with them. -/
theorem Variable.Matches.foldl_agree {m : Renaming} {x y : Variable Q} (h : x.Matches m.row y)
    (w : VarId) (rows : List (Row K)) :
    (rows.foldl (Variable.agree w) x).Matches m.row
      ((rows.map (Row.rename m)).foldl (Variable.agree (m.var w)) y) := by
  induction rows generalizing x y with
  | nil => exact h
  | cons r rows ih =>
    refine ih ?_
    have hcontains : (r.rename m).expr.contains (m.var w) = r.expr.contains w :=
      LinExpr.contains_rename m.var_injective r.expr w
    rw [agree, agree, hcontains]
    exact (h.removeRef m.row_injective r.id).ite Iff.rfl (h.addRef m.row_injective r.id)

namespace Tableau

variable {m : Renaming} {t t' u u' : Tableau K Q} {out out' : Option RowId} {v : VarId} {r : Row K}

namespace Embeds

/-- A renamed expression names no variable twice if it did not. -/
theorem nodup_rename (m : Renaming) {e : LinExpr K} (he : e.vars.Nodup) :
    (e.rename m.var).vars.Nodup := by
  rw [LinExpr.vars_rename]
  exact he.map m.var_injective

/-- A renamed expression names a renamed variable if it named the variable. -/
theorem mem_rename_iff (m : Renaming) {e : LinExpr K} {v : VarId} :
    m.var v ∈ (e.rename m.var).vars ↔ v ∈ e.vars := by
  rw [LinExpr.vars_rename]
  exact List.mem_map_of_injective m.var_injective

/-- What is read of variables, rows and the goal is all that counts. -/
theorem of_eq (h : t.Embeds m u) (hvars : t'.vars = t.vars) (hrows : t'.rows = t.rows)
    (hgoal : t'.goal = t.goal) (hvars' : u'.vars = u.vars) (hrows' : u'.rows = u.rows)
    (hgoal' : u'.goal = u.goal) : t'.Embeds m u' := by
  refine ⟨?_, ?_, ?_⟩
  · rw [hvars, hvars']
    exact h.var
  · rw [hrows, hrows']
    exact h.row
  · rw [hvars, hgoal, hgoal']
    exact h.goal

/-- Counting on both sides leaves one tableau in the other. -/
theorem count (h : t.Embeds m u) (f g : Counters → Counters) :
    (t.count f).Embeds m (u.count g) :=
  h.of_eq (vars_count t f) (rows_count t f) (goal_count t f) (vars_count u g) (rows_count u g)
    (goal_count u g)

/-- Counting on the large side leaves the small tableau in it. -/
theorem count_right (h : t.Embeds m u) (g : Counters → Counters) : t.Embeds m (u.count g) :=
  h.of_eq rfl rfl rfl (vars_count u g) (rows_count u g) (goal_count u g)

/-- Variables changed in the same way, as far as their roles and links go. -/
theorem of_vars (h : t.Embeds m u) {f g : VarId → Variable Q → Variable Q}
    (hvars : ∀ v, t'.vars.get? v = (t.vars.get? v).map (f v))
    (hvars' : ∀ v, u'.vars.get? (m.var v) = (u.vars.get? (m.var v)).map (g v))
    (hfg : ∀ v x y, x.Matches m.row y → (f v x).Matches m.row (g v y))
    (hrow : ∀ r ∈ t'.rows, r.rename m ∈ u'.rows)
    (hgoal : Goal.Agree m.var (fun v => t.vars.isLive v) t'.goal u'.goal) : t'.Embeds m u' := by
  refine ⟨fun v x hx => ?_, hrow, hgoal.mono fun v hv => ?_⟩
  · rw [hvars] at hx
    obtain ⟨x₀, hx₀, rfl⟩ := Option.map_eq_some_iff.mp hx
    obtain ⟨y₀, hy₀, hmatch⟩ := h.var v x₀ hx₀
    exact ⟨g v y₀, by rw [hvars', hy₀, Option.map_some], hfg v x₀ y₀ hmatch⟩
  · obtain ⟨x, hx⟩ := VariablePool.isLive_iff.mp hv
    rw [hvars] at hx
    obtain ⟨x₀, hx₀, -⟩ := Option.map_eq_some_iff.mp hx
    exact VariablePool.isLive_iff.mpr ⟨x₀, hx₀⟩

/-! ### Both act -/

/-- A row that is attached to both tableaux is in both. -/
theorem attach (h : t.Embeds m u) (hr : r.expr.vars.Nodup) :
    (t.attach r).Embeds m (u.attach (r.rename m)) := by
  refine h.of_vars (get?_attach hr) (fun v => get?_attach (nodup_rename m hr) (m.var v))
    (fun v x y hxy => ?_) (fun s hs => ?_) ?_
  · have hbasic : m.var v = (r.rename m).basic ↔ v = r.basic := m.var_injective.eq_iff
    have hdefine := hxy.ite hbasic (hxy.define (some r.id))
    exact hdefine.ite (mem_rename_iff m) (hdefine.addRef m.row_injective r.id)
  · rw [rows_attach, List.mem_append, List.mem_singleton] at hs
    rw [rows_attach, List.mem_append, List.mem_singleton]
    rcases hs with hs | rfl
    · exact .inl (h.row s hs)
    · exact .inr rfl
  · rw [goal_attach, goal_attach]
    exact h.goal

/-- A variable that is released from both tableaux is in neither. -/
theorem release (h : t.Embeds m u) (v : VarId) :
    Embeds m { t with vars := t.vars.release v } { u with vars := u.vars.release (m.var v) } := by
  have hget := fun w => VariablePool.get?_release t.vars v w
  refine ⟨fun w x hx => ?_, h.row, h.goal.mono fun w hw => ?_⟩
  · have hne : w ≠ v := by
      rintro rfl
      simp [hget] at hx
    rw [hget, if_neg hne] at hx
    obtain ⟨y, hy, hmatch⟩ := h.var w x hx
    refine ⟨y, ?_, hmatch⟩
    rw [VariablePool.get?_release, if_neg fun he => hne (m.var_injective he), hy]
  · obtain ⟨x, hx⟩ := VariablePool.isLive_iff.mp hw
    rw [hget] at hx
    split at hx
    · exact absurd hx (by simp)
    · exact VariablePool.isLive_iff.mpr ⟨x, hx⟩

/-- A row outside entered. -/
theorem attach_outside (h : t.Embeds m u) (hr : r.expr.vars.Nodup)
    (hout : ∀ w, w = r.basic ∨ w ∈ r.expr.vars → ¬Inside m t w) : t.Embeds m (u.attach r) := by
  refine h.frame (fun v hv => ?_) (fun s hs => ?_) fun v _ => by rw [goal_attach]
  · have hbasic : m.var v ≠ r.basic := fun he => hout _ (.inl he) ⟨v, hv, rfl⟩
    have hterm : m.var v ∉ r.expr.vars := fun hmem => hout _ (.inr hmem) ⟨v, hv, rfl⟩
    rw [get?_attach hr]
    simp [hbasic, hterm]
  · rw [rows_attach]
    exact List.mem_append_left _ (h.row s hs)

variable [Coefficient K]

/-- A row that is detached from both tableaux is in neither. -/
theorem detach (h : t.Embeds m u) (ht : t.Linked out) (hu : u.Linked out') (hr : r ∈ t.rows) :
    (t.detach r).Embeds m (u.detach (r.rename m)) := by
  have hnodup := (ht.row r hr).nodup
  refine h.of_vars (get?_detach hnodup) (fun v => get?_detach (nodup_rename m hnodup) (m.var v))
    (fun v x y hxy => ?_) (fun s hs => ?_) ?_
  · have hbasic : m.var v = (r.rename m).basic ↔ v = r.basic := m.var_injective.eq_iff
    have hdefine := hxy.ite hbasic (hxy.define none)
    exact hdefine.ite (mem_rename_iff m) (hdefine.removeRef m.row_injective r.id)
  · obtain ⟨hmem, hne⟩ := (ht.mem_rows_detach hr s).mp hs
    refine (hu.mem_rows_detach (h.row r hr) _).mpr ⟨h.row s hmem, ?_⟩
    exact Row.rename_ne_of_id_ne fun hid => hne (ht.eq_of_id_eq hmem hr hid)
  · rw [goal_detach, goal_detach]
    exact h.goal

/-- A row that is dropped from both tableaux is in neither. -/
theorem dropRow (h : t.Embeds m u) (ht : t.Linked out) (hu : u.Linked out') (hr : r ∈ t.rows) :
    (t.dropRow r).Embeds m (u.dropRow (r.rename m)) :=
  (h.detach ht hu hr).of_eq rfl rfl rfl rfl rfl rfl

/-- The rows visited are those in which the variable has a term, in its order. -/
theorem touched_eq (ht : t.Linked out) (v : VarId) (d : LinExpr K) :
    t.touched v d = (t.referring v).map (·.substitute v d) := by
  have htouched : t.touched v d = (t.refs v).filterMap (t.substitute v d).row? := rfl
  rw [htouched, referring, List.map_filterMap]
  refine List.filterMap_congr fun id _ => ?_
  rw [row?, ht.rows_substitute, List.find?_map]
  rfl

/-- Replacing the same variable in both tableaux leaves one in the other. -/
theorem substitute (h : t.Embeds m u) (ht : t.Linked out) (hu : u.Linked out')
    (hv : t.vars.isLive v) {d : LinExpr K} (hd : d.vars.Nodup) :
    (t.substitute v d).Embeds m (u.substitute (m.var v) (d.rename m.var)) := by
  have htouched : u.touched (m.var v) (d.rename m.var) = (t.touched v d).map (Row.rename m) := by
    rw [touched_eq hu, touched_eq ht, h.referring_eq ht hu hv, List.map_map, List.map_map]
    exact List.map_congr_left fun r _ => (Row.rename_substitute m r v d).symm
  refine h.of_vars (fun w => get?_substitute hd v w)
    (fun w => get?_substitute (nodup_rename m hd) (m.var v) (m.var w))
    (fun w x y hxy => ?_) (fun s hs => ?_) ?_
  · rw [htouched]
    have hclear := hxy.ite (m.var_injective.eq_iff (a := w) (b := v)) hxy.clear
    exact hclear.ite (mem_rename_iff m) (hclear.foldl_agree w _)
  · rw [ht.rows_substitute] at hs
    obtain ⟨r, hr, rfl⟩ := List.mem_map.mp hs
    rw [hu.rows_substitute, Row.rename_substitute]
    exact List.mem_map_of_mem (h.row r hr)
  · exact h.goal.substitute m.var_injective ht.tidy_goal hu.tidy_goal hv d

/-- An **exchange** in both. -/
theorem redefine (h : t.Embeds m u) (ht : t.Linked none) (hu : u.Linked none) (hr : r ∈ t.rows)
    (hv : v ∈ r.expr.vars) : (t.redefine r v).Embeds m (u.redefine (r.rename m) (m.var v)) := by
  have hlive : (t.detach r).vars.isLive v :=
    ((SameVars.detach t (ht.row r hr).nodup).isLive_iff v).mpr ((ht.row r hr).term v hv).1
  have hnodup := ht.nodup_redefined hr (v := v)
  have hsubst := (h.detach ht hu hr).substitute (ht.detach hr) (hu.detach (h.row r hr)) hlive hnodup
  rw [redefine_eq, redefine_eq, ← Row.rename_redefined]
  exact hsubst.attach hnodup

/-- Dropping the row of the same variable from both tableaux leaves one in the other. -/
theorem undefine (h : t.Embeds m u) (ht : t.Linked none) (hu : u.Linked none)
    (hv : t.vars.isLive v) : (t.undefine v).Embeds m (u.undefine (m.var v)) := by
  rw [Tableau.undefine, Tableau.undefine, h.definition?_eq ht hu hv]
  cases hdef : t.definition? v with
  | none => exact h
  | some r => exact h.dropRow ht hu (ht.definition?_eq_some_iff.mp hdef).1

/-- Taking the same variable out of the goals leaves one tableau in the other. -/
theorem forget (h : t.Embeds m u) (ht : t.Linked out) (hu : u.Linked out') (v : VarId) :
    (t.forget v).Embeds m (u.forget (m.var v)) := by
  refine h.of_vars (f := fun w x => if w = v then { x with refs := [] } else x)
    (g := fun w y => if w = v then { y with refs := [] } else y)
    (fun w => VariablePool.get?_modify_of_injective Function.injective_id t.vars v w _)
    (fun w => VariablePool.get?_modify_of_injective m.var_injective u.vars v w _)
    (fun w x y hxy => hxy.ite Iff.rfl hxy.clear) (fun s hs => ?_) ?_
  · rw [ht.rows_forget] at hs
    obtain ⟨r, hr, rfl⟩ := List.mem_map.mp hs
    rw [hu.rows_forget]
    refine List.mem_map.mpr ⟨r.rename m, h.row r hr, ?_⟩
    rw [Row.rename, Row.rename, LinExpr.rename_without m.var_injective]
  · exact h.goal.without m.var_injective ht.tidy_goal hu.tidy_goal v

/-- A variable taken out of both. -/
theorem discard (h : t.Embeds m u) (ht : t.Linked none) (hu : u.Linked none)
    (hv : t.vars.isLive v) : (t.discard v).Embeds m (u.discard (m.var v)) :=
  ((h.undefine ht hu hv).forget (ht.undefine v).1 (hu.undefine (m.var v)).1 v).release v

/-! ### The larger one acts alone -/

/-- Detaching a row that speaks of no variable of the small tableau leaves that in the large one. -/
theorem detach_outside (h : t.Embeds m u) (ht : t.Linked out) (hu : u.Linked out')
    (hr : r ∈ u.rows) (hout : ∀ w, w = r.basic ∨ w ∈ r.expr.vars → ¬Inside m t w) :
    t.Embeds m (u.detach r) := by
  refine h.frame (fun v hv => ?_) (fun s hs => ?_) fun v _ => by rw [goal_detach]
  · have hbasic : m.var v ≠ r.basic := fun he => hout _ (.inl he) ⟨v, hv, rfl⟩
    have hterm : m.var v ∉ r.expr.vars := fun hmem => hout _ (.inr hmem) ⟨v, hv, rfl⟩
    rw [get?_detach (hu.row r hr).nodup]
    simp [hbasic, hterm]
  · refine (hu.mem_rows_detach hr _).mpr ⟨h.row s hs, ?_⟩
    rintro rfl
    exact hout _ (.inl rfl) (inside_of_row ht hs).1

/-- Dropping a row that speaks of no variable of the small tableau leaves that in the large one. -/
theorem dropRow_outside (h : t.Embeds m u) (ht : t.Linked out) (hu : u.Linked out')
    (hr : r ∈ u.rows) (hout : ∀ w, w = r.basic ∨ w ∈ r.expr.vars → ¬Inside m t w) :
    t.Embeds m (u.dropRow r) :=
  (h.detach_outside ht hu hr hout).of_eq rfl rfl rfl rfl rfl rfl

/-- Replacing a variable that is not the small tableau's leaves that in the large one. -/
theorem substitute_outside (h : t.Embeds m u) (ht : t.Linked out) (hu : u.Linked out')
    (hv : ¬Inside m t v) {d : LinExpr K} (hd : d.vars.Nodup)
    (hout : ∀ w ∈ d.vars, ¬Inside m t w) : t.Embeds m (u.substitute v d) := by
  refine h.frame (fun w hw => ?_) (fun s hs => ?_) fun w hw => ?_
  · have hne : m.var w ≠ v := fun he => hv ⟨w, hw, he⟩
    have hterm : m.var w ∉ d.vars := fun hmem => hout _ hmem ⟨w, hw, rfl⟩
    rw [get?_substitute hd]
    simp [hne, hterm]
  · have hnot : v ∉ (s.rename m).expr.vars := fun hmem => hv ((inside_of_row ht hs).2 v hmem)
    rw [hu.rows_substitute]
    refine List.mem_map.mpr ⟨s.rename m, h.row s hs, ?_⟩
    rw [Row.substitute, LinExpr.substitute_of_notMem hnot]
  · exact hu.tidy_goal.get?_substitute_of_notMem (fun he => hv ⟨w, hw, he⟩)
      fun hmem => hout _ hmem ⟨w, hw, rfl⟩

/-- An **exchange** in a row outside. -/
theorem redefine_outside (h : t.Embeds m u) (ht : t.Linked out) (hu : u.Linked none)
    (hr : r ∈ u.rows) (hv : v ∈ r.expr.vars) (hout : ¬Inside m t v) :
    t.Embeds m (u.redefine r v) := by
  have houtside : ∀ w, w = r.basic ∨ w ∈ r.expr.vars → ¬Inside m t w := fun w hw =>
    h.outside_of_row ht hu hr hout (.inr hv) hw
  have hnodup := hu.nodup_redefined hr (v := v)
  have hterms : ∀ w ∈ (redefined r v).expr.vars, ¬Inside m t w := fun w hw =>
    houtside w (LinExpr.mem_of_mem_exchange (hu.row r hr).nodup hw).2
  rw [redefine_eq]
  refine ((h.detach_outside ht hu hr houtside).substitute_outside ht (hu.detach hr) hout hnodup
    hterms).attach_outside hnodup fun w hw => ?_
  rcases hw with rfl | hw
  · exact hout
  · exact hterms w hw

/-- A variable outside taken out. -/
theorem discard_outside (h : t.Embeds m u) (ht : t.Linked out) (hu : u.Linked none)
    (hv : ¬Inside m t v) : t.Embeds m (u.discard v) := by
  have hundefined : t.Embeds m (u.undefine v) := by
    rw [Tableau.undefine]
    cases hdef : u.definition? v with
    | none => exact h
    | some r =>
      obtain ⟨hr, hbasic⟩ := hu.definition?_eq_some_iff.mp hdef
      exact h.dropRow_outside ht hu hr fun w hw =>
        h.outside_of_row ht hu hr hv (.inl hbasic.symm) hw
  have hlinked := (hu.undefine v).1
  refine hundefined.frame (fun w hw => ?_) (fun s hs => ?_) fun w hw => ?_
  · have hne : m.var w ≠ v := fun he => hv ⟨w, hw, he⟩
    have hforget := VariablePool.get?_modify (u.undefine v).vars v
      (fun x => { x with refs := [] }) (m.var w)
    refine (VariablePool.get?_release _ v (m.var w)).trans ?_
    rw [if_neg hne]
    exact hforget.trans (if_neg hne)
  · have hnot : v ∉ (s.rename m).expr.vars := fun hmem => hv ((inside_of_row ht hs).2 v hmem)
    have hrows : (u.discard v).rows = ((u.undefine v).forget v).rows := rfl
    rw [hrows, hlinked.rows_forget]
    refine List.mem_map.mpr ⟨s.rename m, hundefined.row s hs, ?_⟩
    rw [LinExpr.without_of_notMem hnot]
  · have hgoal : (u.discard v).goal = (u.undefine v).goal.without v := rfl
    rw [hgoal]
    exact (hlinked.tidy_goal.get?_without v (m.var w)).trans
      (if_neg fun he => hv ⟨w, hw, he⟩)

/-- Discarding variables that are not the small tableau's leaves that in the large one. -/
theorem foldl_discard_outside {vs : List VarId} (h : t.Embeds m u) (ht : t.Linked out)
    (hu : u.Linked none) (hvs : ∀ v ∈ vs, ¬Inside m t v) :
    t.Embeds m (vs.foldl Tableau.discard u) := by
  induction vs generalizing u with
  | nil => exact h
  | cons v vs ih =>
    exact ih (h.discard_outside ht hu (hvs v (by simp))) (hu.discard v)
      fun w hw => hvs w (List.mem_cons_of_mem v hw)

end Embeds

end Tableau

end LexSimplex
