import LexSimplex.Proofs.Links.Substitution

/-!
# Sequences of exchanges

A minimisation is a sequence of exchanges, each of which makes one row define the variable that
enters. What an exchange keeps, a minimisation keeps, and when it stops, its outcome says
whether a variable was left that could have entered.

## Main results

* `Tableau.descend_induction`: what every exchange keeps holds after a minimisation.
* `Tableau.descend_outcome`: success means that no variable lowers the objective.
* `Tableau.Linked.exists_row_of_leaving?`: the row that stops a variable.
* `Tableau.Linked.minimise`: minimisation keeps the links.
-/

namespace LexSimplex

/-! ### The choices -/

/-- The blocker that is chosen is one of the blockers. -/
theorem Blocker.mem_of_first?_eq_some {K : Type} [Coefficient K] {bs : List (Blocker K)}
    {b : Blocker K} (h : first? bs = some b) : b ∈ bs := by
  suffices hfold : ∀ best, bs.foldl better best = some b → best = some b ∨ b ∈ bs by
    rcases hfold none h with hnone | hmem
    · exact absurd hnone (by simp)
    · exact hmem
  clear h
  induction bs with
  | nil => exact fun best hbest => .inl hbest
  | cons x xs ih =>
      intro best hbest
      rcases ih (better best x) hbest with hx | hmem
      · cases best with
        | none =>
            obtain rfl := Option.some.inj hx
            exact .inr List.mem_cons_self
        | some y =>
            by_cases hxy : x.sooner y
            · rw [better, if_pos hxy] at hx
              obtain rfl := Option.some.inj hx
              exact .inr List.mem_cons_self
            · rw [better, if_neg hxy] at hx
              exact .inl hx
      · exact .inr (List.mem_cons_of_mem x hmem)

/-- A blocker is chosen if there is one. -/
theorem Blocker.first?_eq_none_iff {K : Type} [Coefficient K] {bs : List (Blocker K)} :
    first? bs = none ↔ bs = [] := by
  constructor
  · intro h
    cases bs with
    | nil => rfl
    | cons x xs =>
        have hsome : ∀ (ys : List (Blocker K)) y, ∃ z, ys.foldl better (some y) = some z := by
          intro ys
          induction ys with
          | nil => exact fun y => ⟨y, rfl⟩
          | cons z zs ih =>
              intro y
              rw [List.foldl_cons, better]
              split
              · exact ih z
              · exact ih y
        obtain ⟨z, hz⟩ := hsome xs x
        have hfirst : first? (x :: xs) = some z := hz
        rw [hfirst] at h
        exact absurd h (by simp)
  · rintro rfl
    rfl

/-- The variable with the least handle is one of the variables. -/
theorem mem_of_lowest?_eq_some {β : Type} {vs : List (VarId × β)} {x : VarId × β}
    (h : lowest? vs = some x) : x ∈ vs := by
  suffices hfold : ∀ best, vs.foldl lower best = some x → best = some x ∨ x ∈ vs by
    rcases hfold none h with hnone | hmem
    · exact absurd hnone (by simp)
    · exact hmem
  clear h
  induction vs with
  | nil => exact fun best hbest => .inl hbest
  | cons y ys ih =>
      intro best hbest
      rcases ih _ hbest with hy | hmem
      · cases best with
        | none =>
            obtain rfl := Option.some.inj hy
            exact .inr List.mem_cons_self
        | some z =>
            rw [lower] at hy
            by_cases hyz : y.1 < z.1
            · rw [if_pos hyz] at hy
              obtain rfl := Option.some.inj hy
              exact .inr List.mem_cons_self
            · rw [if_neg hyz] at hy
              exact .inl hy
      · exact .inr (List.mem_cons_of_mem y hmem)

/-- No variable has a lower handle than the one that is chosen. -/
theorem not_lt_of_lowest?_eq_some {β : Type} {vs : List (VarId × β)} {x y : VarId × β}
    (h : lowest? vs = some x) (hy : y ∈ vs) : ¬y.1 < x.1 := by
  suffices hfold : ∀ (vs : List (VarId × β)) z, vs.foldl lower (some z) = some x →
      ¬z.1 < x.1 ∧ ∀ y ∈ vs, ¬y.1 < x.1 by
    cases vs with
    | nil => exact absurd hy List.not_mem_nil
    | cons z zs =>
        obtain ⟨hz, hzs⟩ := hfold zs z h
        rcases List.mem_cons.mp hy with rfl | hy
        · exact hz
        · exact hzs y hy
  intro vs
  induction vs with
  | nil =>
      intro z hx
      obtain rfl := Option.some.inj hx
      exact ⟨Nat.lt_irrefl _, fun y hy => absurd hy List.not_mem_nil⟩
  | cons w ws ih =>
      intro z hx
      obtain ⟨m, hm, hmz, hmw⟩ : ∃ m, lower (some z) w = some m ∧ ¬z.1 < m.1 ∧ ¬w.1 < m.1 := by
        rw [lower]
        by_cases hwz : w.1 < z.1
        · exact ⟨w, if_pos hwz, Nat.not_lt.mpr (Nat.le_of_lt hwz), Nat.lt_irrefl _⟩
        · exact ⟨z, if_neg hwz, Nat.lt_irrefl _, hwz⟩
      rw [List.foldl_cons, hm] at hx
      obtain ⟨hmx, hws⟩ := ih m hx
      have hbelow : ∀ v : VarId, ¬v < m.1 → ¬v < x.1 := fun v hv hvx =>
        hmx (Nat.lt_of_le_of_lt (Nat.not_lt.mp hv) hvx)
      refine ⟨hbelow _ hmz, fun y hy => ?_⟩
      rcases List.mem_cons.mp hy with rfl | hy
      · exact hbelow _ hmw
      · exact hws y hy

/-- A variable is found if there is one. -/
theorem lowest?_eq_none_iff {β : Type} {vs : List (VarId × β)} :
    lowest? vs = none ↔ vs = [] := by
  constructor
  · intro h
    cases vs with
    | nil => rfl
    | cons x xs =>
        have hsome : ∀ (ys : List (VarId × β)) y, ∃ z, ys.foldl lower (some y) = some z := by
          intro ys
          induction ys with
          | nil => exact fun y => ⟨y, rfl⟩
          | cons z zs ih =>
              intro y
              rw [List.foldl_cons, lower]
              by_cases hzy : z.1 < y.1
              · rw [if_pos hzy]
                exact ih z
              · rw [if_neg hzy]
                exact ih y
        obtain ⟨z, hz⟩ := hsome xs x
        have hfirst : lowest? (x :: xs) = some z := hz
        rw [hfirst] at h
        exact absurd h (by simp)
  · rintro rfl
    rfl

namespace Tableau

variable {K Q : Type} {t : Tableau K Q} [Coefficient K] {o : Objective} {v : VarId}
  {d : Direction}

/-- A variable that enters has a term in the objective and lowers it. -/
theorem exists_of_entering?_eq_some (h : t.entering? o = some (v, d)) :
    ∃ vector, (v, vector) ∈ (t.objective o).terms ∧ t.improving v vector = some d := by
  obtain ⟨⟨w, vector⟩, hterm, himp⟩ := List.mem_filterMap.mp (mem_of_lowest?_eq_some h)
  obtain ⟨d', hd', heq⟩ := Option.map_eq_some_iff.mp himp
  obtain ⟨rfl, rfl⟩ := Prod.mk.inj heq
  exact ⟨vector, hterm, hd'⟩

/-- No variable enters exactly where none lowers the objective. -/
theorem entering?_eq_none_iff :
    t.entering? o = none ↔ ∀ term ∈ (t.objective o).terms, t.improving term.1 term.2 = none := by
  rw [entering?, lowest?_eq_none_iff, List.filterMap_eq_nil_iff]
  simp only [Option.map_eq_none_iff]

/-- The row that stops a variable has a term of it, and is one of the blockers. -/
theorem Linked.exists_row_of_leaving? {out : Option RowId} (h : t.Linked out) {id : RowId}
    (hid : t.leaving? v d = some id) :
    ∃ r ∈ t.rows, v ∈ r.expr.vars ∧ r.id = id ∧
      ∃ b, Blocker.first? (t.blockers v d) = some b ∧ t.blocker? v d r = some b := by
  obtain ⟨b, hb, hbid⟩ := Option.map_eq_some_iff.mp hid
  obtain ⟨r, hr, hrb⟩ := List.mem_filterMap.mp (Blocker.mem_of_first?_eq_some hb)
  obtain ⟨hrt, hv⟩ := h.mem_referring.mp hr
  refine ⟨r, hrt, hv, ?_, b, hb, hrb⟩
  have hrow : b.row = r.id := by
    rw [blocker?] at hrb
    split at hrb
    · exact absurd hrb (by simp)
    · exact (congrArg Blocker.row (Option.some.inj hrb)).symm
    all_goals
      split at hrb
      · exact (congrArg Blocker.row (Option.some.inj hrb)).symm
      · exact absurd hrb (by simp)
  exact hrow.symm.trans hbid

/-- The row that stops a variable has a term of it. -/
theorem Linked.mem_of_leaving? {out : Option RowId} (h : t.Linked out) {r : Row K}
    (hleave : t.leaving? v d = some r.id) (hrow : t.row? r.id = some r) :
    r ∈ t.rows ∧ v ∈ r.expr.vars := by
  obtain ⟨q, hq, hv, hid, -⟩ := h.exists_row_of_leaving? hleave
  obtain ⟨hr, -⟩ := h.row?_eq_some_iff.mp hrow
  obtain rfl := h.eq_of_id_eq hq hr hid
  exact ⟨hq, hv⟩

/-! ### Objectives -/

/-- An objective after an exchange. -/
theorem objective_redefine (t : Tableau K Q) (o : Objective) (r : Row K) (v : VarId) :
    (t.redefine r v).objective o = (t.objective o).substitute v (redefined r v).expr := by
  cases o with
  | goal =>
      rw [objective, objective, redefine_eq, goal_attach]
      rfl
  | phaseOne =>
      have hphase : (t.redefine r v).phaseOne =
          t.phaseOne.map (·.substitute v (redefined r v).expr) := by
        rw [redefine_eq, phaseOne_attach]
        rfl
      rw [objective, objective, hphase]
      cases t.phaseOne with
      | none => rfl
      | some g => rfl

/-- An objective is linked, or zero. -/
theorem Linked.tidy_objective {out : Option RowId} (h : t.Linked out) (o : Objective) :
    (t.objective o).Tidy ∧ ∀ w ∈ (t.objective o).vars, t.vars.isLive w ∧ ¬t.IsBasic w := by
  have hlinked : ∀ g ∈ t.objectives, g.Tidy ∧ ∀ w ∈ g.vars, t.vars.isLive w ∧ ¬t.IsBasic w :=
    fun g hg => ⟨(h.goal g hg).tidy, (h.goal g hg).term⟩
  cases o with
  | goal => exact hlinked t.goal List.mem_cons_self
  | phaseOne =>
      cases hphase : t.phaseOne with
      | none =>
          rw [objective, hphase]
          exact ⟨Goal.Tidy.zero, fun w hw => absurd hw List.not_mem_nil⟩
      | some g =>
          rw [objective, hphase]
          refine hlinked g ?_
          rw [objectives, hphase]
          exact List.mem_cons_of_mem _ (List.mem_singleton.mpr rfl)

/-! ### The counters do not matter -/

/-- Counting leaves each objective. -/
@[simp] theorem objective_count (t : Tableau K Q) (f : Counters → Counters) (o : Objective) :
    (t.count f).objective o = t.objective o := by
  cases o with
  | goal => exact goal_count t f
  | phaseOne => rw [objective, objective, phaseOne_count]

/-- Counting leaves the variable that enters. -/
@[simp] theorem entering?_count (t : Tableau K Q) (f : Counters → Counters) (o : Objective) :
    (t.count f).entering? o = t.entering? o := by
  simp only [entering?, improving, objective_count, kind_count]

/-- Counting leaves the row that gives way. -/
@[simp] theorem leaving?_count (t : Tableau K Q) (f : Counters → Counters) (v : VarId)
    (d : Direction) : (t.count f).leaving? v d = t.leaving? v d := by
  have hrow : (t.count f).row? = t.row? := funext (row?_count t f)
  have hblocker : (t.count f).blocker? v d = t.blocker? v d :=
    funext fun r => by simp only [blocker?, kind_count]
  rw [leaving?, leaving?, blockers, blockers, referring, referring, hrow, hblocker, refs_count]

/-! ### Exchanges one after another -/

/-- What holds at the start, does not depend on the counters and is kept by every exchange,
holds after a minimisation. -/
theorem descend_induction {p : Tableau K Q → Prop}
    (hcount : ∀ t f, p t → p (t.count f))
    (hstep : ∀ t v d r, p t → t.entering? o = some (v, d) → t.leaving? v d = some r.id →
      t.row? r.id = some r → p (t.redefine r v))
    {limit fuel : Nat} (h : p t) : p (descend o limit fuel t).2 := by
  induction fuel generalizing t with
  | zero =>
      rw [descend]
      split
      · exact h
      · exact h
  | succ fuel ih =>
      rw [descend]
      split
      · exact h
      · rename_i v d hv
        have hp := hcount t (fun c => { c with iterations := c.iterations + 1 }) h
        rw [← entering?_count t fun c => { c with iterations := c.iterations + 1 }] at hv
        generalize t.count (fun c => { c with iterations := c.iterations + 1 }) = t' at hv hp
        dsimp only
        split
        · exact hp
        · rename_i id hid
          refine ih ?_
          rw [pivot]
          split
          · exact hp
          · rename_i r hr
            have hrid : r.id = id := by simpa using List.find?_some hr
            exact hcount _ _ (hstep t' v d r hp hv (hrid ▸ hid) (hrid ▸ hr))

/-- A minimisation succeeds where no variable is left that lowers the objective, and fails where
one is left. -/
theorem descend_outcome (o : Objective) (limit fuel : Nat) (t : Tableau K Q) :
    (descend o limit fuel t).1.toBool = ((descend o limit fuel t).2.entering? o).isNone := by
  induction fuel generalizing t with
  | zero =>
      rw [descend]
      split
      · rename_i hnone
        rw [hnone]
        rfl
      · rename_i v hsome
        rw [hsome]
        rfl
  | succ fuel ih =>
      rw [descend]
      split
      · rename_i hnone
        rw [hnone]
        rfl
      · rename_i v d hsome
        dsimp only
        split
        · rw [entering?_count, hsome]
          rfl
        · exact ih _

/-- Exchanges keep the constraints. -/
theorem constraints_descend (o : Objective) (limit fuel : Nat) (t : Tableau K Q) :
    (descend o limit fuel t).2.constraints = t.constraints ∧
      (descend o limit fuel t).2.entered = t.entered := by
  refine descend_induction
    (p := fun t' => t'.constraints = t.constraints ∧ t'.entered = t.entered)
    ?_ ?_ ⟨rfl, rfl⟩
  · rintro t' f ⟨hc, hn⟩
    exact ⟨(constraints_count t' f).trans hc, (entered_count t' f).trans hn⟩
  · rintro t' v d r ⟨hc, hn⟩ - - -
    exact ⟨(constraints_redefine t' r v).trans hc, (entered_redefine t' r v).trans hn⟩

/-- Exchanges keep the links and the variables. -/
theorem Linked.descend (h : t.Linked none) (o : Objective) (limit fuel : Nat) :
    (descend o limit fuel t).2.Linked none ∧ t.SameVars (Tableau.descend o limit fuel t).2 := by
  refine descend_induction (p := fun t' => t'.Linked none ∧ t.SameVars t') ?_ ?_
    ⟨h, SameVars.refl t⟩
  · rintro t' f ⟨hl, hs⟩
    exact ⟨hl.count f, hs.trans (SameVars.count f)⟩
  · rintro t' v d r ⟨hl, hs⟩ - hleave hrow
    obtain ⟨hr, hv⟩ := hl.mem_of_leaving? hleave hrow
    exact ⟨hl.redefine hr hv, hs.trans (hl.sameVars_redefine hr)⟩

/-- What every exchange keeps, a minimisation keeps. -/
theorem minimise_induction {p : Tableau K Q → Prop}
    (hcount : ∀ t f, p t → p (t.count f))
    (hstep : ∀ t v d r, p t → t.entering? o = some (v, d) → t.leaving? v d = some r.id →
      t.row? r.id = some r → p (t.redefine r v))
    (h : p t) : p (t.minimise o).2 :=
  descend_induction hcount hstep h

/-- A minimisation succeeds if nothing enters any more. -/
theorem minimise_outcome (o : Objective) (t : Tableau K Q) :
    (t.minimise o).1.toBool = ((t.minimise o).2.entering? o).isNone :=
  descend_outcome o _ _ t

/-- Minimisation leaves the constraints. -/
@[simp] theorem constraints_minimise (o : Objective) (t : Tableau K Q) :
    (t.minimise o).2.constraints = t.constraints :=
  (constraints_descend o _ _ t).1

/-- Minimisation enters no constraint. -/
@[simp] theorem entered_minimise (o : Objective) (t : Tableau K Q) :
    (t.minimise o).2.entered = t.entered :=
  (constraints_descend o _ _ t).2

/-- Minimisation keeps the links. -/
theorem Linked.minimise (h : t.Linked none) (o : Objective) : (t.minimise o).2.Linked none :=
  (h.descend o _ _).1

/-- Minimisation keeps the variables. -/
theorem Linked.sameVars_minimise (h : t.Linked none) (o : Objective) :
    t.SameVars (t.minimise o).2 :=
  (h.descend o _ _).2

end Tableau

end LexSimplex
