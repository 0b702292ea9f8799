import LexSimplex.Arithmetic.Exact
import LexSimplex.Proofs.Operations

/-!
# Reachable solvers are consistent

Whatever a caller does, with whatever handles and in whatever arithmetic, the references of the
tableau agree after every operation, whether it succeeds or fails. In particular every handle
that a solver has anywhere is that of a slot which was made, and slots are never destroyed.

## Main definitions

* `Solver.Mentions`, `Solver.MentionsRow`: a solver has a handle somewhere.
* `Solver.Consistent`: the references of a solver agree.

## Main results

* `Solver.Reachable.consistent`: every reachable solver is consistent.
-/

namespace LexSimplex

variable {K Q : Type}

namespace Solver

/-- A solver **mentions** a variable if it has the variable's handle somewhere: in a row or an
objective, with a constraint, or noted as pinned or held. -/
inductive Mentions (s : Solver K Q) (v : VarId) : Prop
  | basic (r : Row K) (hr : r ∈ s.tableau.rows) (hv : r.basic = v)
  | term (r : Row K) (hr : r ∈ s.tableau.rows) (hv : v ∈ r.expr.vars)
  | goal (g : Goal K) (hg : g ∈ s.tableau.objectives) (hv : v ∈ g.vars)
  | own (id : ConstraintId) (c : Constraint K) (hc : s.tableau.constraints.get? id = some c)
    (hv : v ∈ c.tag.vars)
  | folded (id : ConstraintId) (c : Constraint K)
    (hc : s.tableau.constraints.get? id = some c) (hv : v ∈ c.tag.folded)
  | noted (hv : s.Noted v)

/-- A solver mentions a row if it has the row's handle somewhere: with the row itself, or with a
variable as its definition or among its references. -/
inductive MentionsRow (s : Solver K Q) (id : RowId) : Prop
  | row (r : Row K) (hr : r ∈ s.tableau.rows) (hid : r.id = id)
  | definition (v : VarId) (x : Variable Q) (hx : s.tableau.vars.get? v = some x)
    (hid : x.definition = some id)
  | ref (v : VarId) (x : Variable Q) (hx : s.tableau.vars.get? v = some x) (hid : id ∈ x.refs)

/-- A solver is **consistent** if its tableau is linked with no row out, its constraints own
their variables, and the variables noted as pinned or held had slots. -/
structure Consistent [Coefficient K] (s : Solver K Q) : Prop where
  linked : s.tableau.Linked none
  owned : s.tableau.Owned
  noted : ∀ v, s.Noted v → v.index < s.tableau.highWater

end Solver

namespace Tableau

variable [Coefficient K] {t t' : Tableau K Q}

/-! ### Operations that change no row -/

/-- Well-formedness carries over to a tableau with the same rows, objectives and constraints and
variables with the same links. -/
theorem WellFormed.of_links (h : t.WellFormed) (hrows : t'.rows = t.rows)
    (hslots : t'.rowSlots = t.rowSlots) (hobj : t'.objectives = t.objectives)
    (hcons : t'.constraints = t.constraints) (hnext : t'.entered = t.entered)
    (hlinks : ∀ v, (t'.vars.get? v).map Variable.links = (t.vars.get? v).map Variable.links)
    (hmade : t.highWater ≤ t'.highWater) : t'.WellFormed := by
  have hlive : ∀ v, t.vars.isLive v → t'.vars.isLive v := by
    intro v hv
    have hsome := congrArg Option.isSome (hlinks v)
    rw [Option.isSome_map, Option.isSome_map] at hsome
    exact hsome.trans hv
  refine ⟨h.linked.transfer hrows h.linked.out_fresh ?_ (fun v hv _ => hlive v hv) ?_ ?_,
    h.owned.of_isLive hcons hlive hmade, h.numbered.of_eq hcons hnext⟩
  · intro id
    rw [hslots]
    exact h.linked.slot_iff id
  · intro v x hx
    have hmap := hlinks v
    rw [hx, Option.map_some] at hmap
    obtain ⟨y, hy, hyx⟩ := Option.map_eq_some_iff.mp hmap.symm
    exact .inl ⟨y, hy, hyx.symm⟩
  · intro g hg
    have hold := h.linked.goal g (hobj ▸ hg)
    exact ⟨hold.tidy, fun v hv => ⟨hlive v (hold.term v hv).1, (hold.term v hv).2⟩⟩

/-- Counting keeps a tableau well-formed. -/
theorem WellFormed.count (h : t.WellFormed) (f : Counters → Counters) :
    (t.count f).WellFormed :=
  h.of_links (rows_count t f) (rowSlots_count t f) (objectives_count t f)
    (constraints_count t f) (entered_count t f) (fun v => by rw [vars_count])
    (SameVars.count f).highWater_le

/-- Changes of a variable that are not of its links keep a tableau well-formed. -/
theorem WellFormed.modifyVar (h : t.WellFormed) (v : VarId) {f : Variable Q → Variable Q}
    (hf : ∀ x, (f x).links = x.links) : (t.modifyVar v f).WellFormed := by
  refine h.of_links rfl rfl rfl rfl rfl (fun w => ?_)
    (Nat.le_of_eq (Pool.highWater_modify _ _ _).symm)
  have hget : (t.modifyVar v f).vars.get? w = _ := VariablePool.get?_modify t.vars v f w
  rw [hget]
  by_cases hw : w = v
  · rw [if_pos hw, Option.map_map]
    exact congrArg (fun g => (t.vars.get? w).map g) (funext hf)
  · rw [if_neg hw]

/-- Settling changes nothing of a variable but its value. -/
theorem map_settle [Precision K Q] {β : Type} (t : Tableau K Q) (v : VarId) {f : Variable Q → β}
    (hf : ∀ x y, f { x with computed := y } = f x) :
    (t.settle.vars.get? v).map f = (t.vars.get? v).map f := by
  have hget : t.settle.vars.get? v = _ := VariablePool.get?_map t.vars _ v
  rw [hget, Option.map_map]
  refine congrArg (fun g => (t.vars.get? v).map g) (funext fun x => ?_)
  rw [Function.comp_apply]
  split
  · exact hf x _
  · rfl

/-- Settling values keeps a tableau well-formed. -/
theorem WellFormed.settle [Precision K Q] (h : t.WellFormed) : t.settle.WellFormed := by
  exact h.of_links rfl rfl rfl rfl rfl (fun v => map_settle t v fun _ _ => rfl)
    (Nat.le_of_eq (Pool.highWater_map _ _).symm)

/-- Minimisation keeps a tableau well-formed. -/
theorem WellFormed.minimise (h : t.WellFormed) (o : Objective) :
    (t.minimise o).2.WellFormed :=
  h.keeps (h.linked.minimise o) (constraints_minimise o t) (entered_minimise o t)
    (h.linked.sameVars_minimise o).keeps

/-- A new variable keeps a tableau well-formed. -/
theorem WellFormed.addVariable [Scalar Q] (h : t.WellFormed) (kind : Kind)
    (stem : Option String) : (t.addVariable kind stem).2.WellFormed :=
  ⟨h.linked.addVariable kind stem,
    h.owned.of_isLive (constraints_addVariable t kind stem)
      (fun v hv => (t.isLive_addVariable kind stem v).mpr (.inr hv))
      (highWater_le_addVariable t kind stem),
    h.numbered.of_eq (constraints_addVariable t kind stem) (entered_addVariable t kind stem)⟩

/-- A tableau with nothing in it is well-formed. -/
theorem WellFormed.of_nothing (hrows : t.rows = []) (hobj : t.objectives = [Goal.zero])
    (hcons : t.constraints = []) (hvars : ∀ v, t.vars.get? v = none)
    (hslots : ∀ i, t.rowSlots.get? i = none) : t.WellFormed := by
  have hnone : ∀ id, t.constraints.get? id = none := by
    intro id
    rw [hcons]
    rfl
  refine ⟨⟨?_, fun _ h => absurd h (by simp), ?_, ?_, ?_, ?_⟩, ⟨?_, ?_, ?_, ?_⟩, ?_⟩
  · rw [hrows]
    exact List.nodup_nil
  · intro id
    rw [Pool.isLive, hslots, hrows]
    simp
  · rw [hrows]
    exact fun r hr => absurd hr List.not_mem_nil
  · intro v x hx
    rw [hvars] at hx
    exact absurd hx (by simp)
  · rw [hobj]
    intro g hg
    obtain rfl := List.mem_singleton.mp hg
    exact ⟨Goal.Tidy.zero, fun v hv => absurd hv List.not_mem_nil⟩
  all_goals
    intro id c
    rw [hnone]
    intros
    contradiction

end Tableau

namespace Solver

variable [Coefficient K] {s : Solver K Q}

/-! ### Handles -/

/-- An empty solver has a well-formed tableau. -/
theorem wellFormed_empty (settings : Settings) :
    (empty settings : Solver K Q).tableau.WellFormed :=
  .of_nothing rfl rfl rfl (fun _ => rfl) fun _ => rfl

/-- The handles of variables in a consistent solver are those of slots that were made. -/
theorem Consistent.index_lt (h : s.Consistent) {v : VarId} (hv : s.Mentions v) :
    v.index < s.tableau.vars.slots.highWater := by
  have hmade : ∀ {v}, s.tableau.vars.isLive v → v.index < s.tableau.highWater :=
    VariablePool.lt_highWater_of_isLive
  cases hv with
  | basic r hr hv => exact hv ▸ hmade (h.linked.row r hr).basic_isLive
  | term r hr hv => exact hmade ((h.linked.row r hr).term v hv).1
  | goal g hg hv => exact hmade ((h.linked.goal g hg).term v hv).1
  | own id c hc hv => exact hmade (h.owned.isLive id c hc v hv)
  | folded id c hc hv => exact h.owned.folded id c hc v hv
  | noted hv => exact h.noted v hv

/-- The handles of rows in a consistent solver are those of live slots. -/
theorem Consistent.rowSlots_isLive (h : s.Consistent) {id : RowId} (hid : s.MentionsRow id) :
    s.tableau.rowSlots.isLive id.index := by
  refine (h.linked.slot_iff id).mpr (.inl ?_)
  cases hid with
  | row r hr hid => exact ⟨r, hr, hid⟩
  | definition v x hx hid =>
      obtain ⟨r, hr, hrid, -⟩ := ((h.linked.var v x hx).definition_iff id).mp hid
      exact ⟨r, hr, hrid⟩
  | ref v x hx hid =>
      obtain ⟨r, hr, hrid, -⟩ := ((h.linked.var v x hx).mem_refs_iff id).mp hid
      exact ⟨r, hr, hrid⟩

/-! ### Every operation -/

section Perform

variable [Precision K Q]

/-- Optimisation keeps a tableau well-formed with the slots that there were. -/
theorem wellFormed_optimize (h : s.tableau.WellFormed) : s.optimize.2.tableau.WellFormed ∧
    s.tableau.highWater ≤ s.optimize.2.tableau.highWater := by
  have hcount := h.count fun c => { c with optimize := c.optimize + 1 }
  have hcounted := Tableau.SameVars.count (t := s.tableau) fun c =>
    { c with optimize := c.optimize + 1 }
  have hslots := Nat.le_trans hcounted.highWater_le
    (hcount.linked.sameVars_minimise .goal).highWater_le
  refine (s.tableau_optimize (p := fun t => t.WellFormed ∧ s.tableau.highWater ≤ t.highWater)
    ⟨hcount.minimise .goal, hslots⟩ ?_).1
  rintro t ⟨hwell, hn⟩
  exact ⟨hwell.settle, Nat.le_trans hn (Nat.le_of_eq (Pool.highWater_map _ _).symm)⟩

/-- An optimisation leaves the notes. -/
theorem noted_optimize (s : Solver K Q) (v : VarId) : s.optimize.2.Noted v ↔ s.Noted v := by
  obtain ⟨-, hpins, hholds⟩ := s.tableau_optimize (p := fun _ => True) trivial fun _ _ => trivial
  rw [Noted, Noted, hpins, hholds]

variable [Scalar Q]

/-- Well-formedness with at least `n` slots is kept, whatever the requests name. -/
theorem closed_wellFormed (named : VarId → Prop) (n : Nat) :
    Tableau.Closed named fun t : Tableau K Q => t.WellFormed ∧ n ≤ t.highWater := by
  refine ⟨?_, ?_, ?_, ?_, ?_⟩
  · rintro t request relation - ⟨hwell, hn⟩
    obtain ⟨hwell', hkeeps⟩ := hwell.insert request relation
    exact ⟨hwell', Nat.le_trans hn hkeeps.highWater_le⟩
  · rintro t id ⟨hwell, hn⟩
    refine Tableau.remove_cases
      (p := fun result => result.2.WellFormed ∧ n ≤ result.2.highWater) ?_ ?_
    · exact fun _ => ⟨hwell, hn⟩
    · intro c hc
      obtain ⟨hwell', hkeeps⟩ := hwell.withdraw hc
      exact ⟨hwell', Nat.le_trans hn hkeeps.highWater_le⟩
  · rintro t v x ⟨hwell, hn⟩
    exact ⟨hwell.modifyVar v fun _ => rfl,
      Nat.le_trans hn (Nat.le_of_eq (Pool.highWater_modify _ _ _).symm)⟩
  · rintro t v ⟨hwell, hn⟩
    exact ⟨hwell.modifyVar v fun _ => rfl,
      Nat.le_trans hn (Nat.le_of_eq (Pool.highWater_modify _ _ _).symm)⟩
  · rintro t f ⟨hwell, hn⟩
    exact ⟨hwell.count f, Nat.le_trans hn (Tableau.SameVars.count f).highWater_le⟩

/-- A command keeps a solver's tableau well-formed and what is noted within the slots that were
made, and slots are never destroyed. -/
theorem wellFormed_perform (hwell : s.tableau.WellFormed)
    (hnoted : ∀ v, s.Noted v → v.index < s.tableau.highWater) (c : Command K Q) :
    Keeping (fun v => v.index < s.tableau.highWater)
      (fun t => t.WellFormed ∧ s.tableau.highWater ≤ t.highWater) (s.perform c).2 := by
  have hkeeping : Keeping (fun v => v.index < s.tableau.highWater)
      (fun t => t.WellFormed ∧ s.tableau.highWater ≤ t.highWater) s :=
    ⟨⟨hwell, Nat.le_refl _⟩, hnoted⟩
  have hclosed := closed_wellFormed (K := K) (Q := Q)
    (fun v => v.index < s.tableau.highWater) s.tableau.highWater
  have hadd : ∀ request relation, Keeping (fun v => v.index < s.tableau.highWater)
      (fun t => t.WellFormed ∧ s.tableau.highWater ≤ t.highWater) (s.add request relation).2 := by
    intro request relation
    obtain ⟨htableau, hpins, hholds, -⟩ := s.tableau_add request relation
    obtain ⟨hwell', hkeeps⟩ := hwell.insert request relation
    refine hkeeping.of_noted ?_ fun w hw => ?_
    · rw [htableau]
      exact ⟨hwell', hkeeps.highWater_le⟩
    · rwa [Noted, hpins, hholds] at hw
  cases c with
  | declare kind stem =>
      refine hkeeping.of_noted ?_ fun w hw => hw
      exact ⟨hwell.addVariable kind _, Tableau.highWater_le_addVariable _ kind _⟩
  | add request relation => exact hadd request relation
  | arrange layout strength => exact hadd _ _
  | remove id => exact hkeeping.remove hclosed id
  | pin v x => exact hkeeping.pin hclosed VariablePool.lt_highWater_of_isLive x
  | unpin v => exact hkeeping.unpin hclosed v
  | optimize =>
      exact hkeeping.of_noted (wellFormed_optimize hwell) fun w => (noted_optimize s w).mp
  | reset =>
      refine ⟨⟨?_, Nat.le_of_eq (Pool.highWater_reset _).symm⟩, ?_⟩
      · exact Tableau.WellFormed.of_nothing rfl rfl rfl
          (VariablePool.get?_reset s.tableau.vars) (Pool.get?_reset s.tableau.rowSlots)
      · rintro v (hv | hv) <;> exact absurd hv List.not_mem_nil
  | resetCounters =>
      refine hkeeping.of_noted ?_ fun w hw => hw
      exact ⟨hwell.of_links rfl rfl rfl rfl rfl (fun _ => rfl) (Nat.le_refl _), Nat.le_refl _⟩

/-- Whatever a caller does, the tableau stays well-formed and what is noted has a slot. -/
theorem Reachable.wellFormed_and_noted (h : s.Reachable) :
    s.tableau.WellFormed ∧ ∀ v, s.Noted v → v.index < s.tableau.highWater := by
  refine h.induction (p := fun s => s.tableau.WellFormed ∧
    ∀ v, s.Noted v → v.index < s.tableau.highWater) (fun settings => ?_) fun s c hs => ?_
  · refine ⟨wellFormed_empty settings, ?_⟩
    rintro v (hv | hv) <;> exact absurd hv List.not_mem_nil
  · obtain ⟨hwell, hnoted⟩ := hs
    obtain ⟨⟨hwell', hslots⟩, hnoted'⟩ := wellFormed_perform hwell hnoted c
    exact ⟨hwell', fun v hv => Nat.lt_of_lt_of_le (hnoted' v hv) hslots⟩

/-- Every reachable solver has a well-formed tableau. -/
theorem Reachable.wellFormed (h : s.Reachable) : s.tableau.WellFormed :=
  h.wellFormed_and_noted.1

/-- Every reachable solver is consistent. -/
theorem Reachable.consistent (h : s.Reachable) : s.Consistent :=
  ⟨h.wellFormed.linked, h.wellFormed.owned, h.wellFormed_and_noted.2⟩

/-- **Consistency.** In every reachable solver the references agree, every handle is that of a
slot which was made, and no command destroys a slot. -/
theorem Reachable.references_agree (h : s.Reachable) :
    s.Consistent ∧ (∀ v, s.Mentions v → v.index < s.tableau.vars.slots.highWater) ∧
      (∀ id, s.MentionsRow id → s.tableau.rowSlots.isLive id.index) ∧
      ∀ c, s.tableau.vars.slots.highWater ≤ (s.perform c).2.tableau.vars.slots.highWater := by
  have hcons := h.consistent
  exact ⟨hcons, fun _ hv => hcons.index_lt hv, fun _ hid => hcons.rowSlots_isLive hid,
    fun c => (wellFormed_perform h.wellFormed hcons.noted c).1.2⟩

end Perform

/-- A run with an accepted constraint, a refused one and a removal. -/
theorem references_agree_after_refusal :
    let x : VarId := ⟨0⟩
    let s : Solver Rat Rat := (empty {}).run
      [.declare .external "x", .add (pinRequest x (1 : Rat)) .eq,
        .add (pinRequest x (2 : Rat)) .eq, .remove ⟨0⟩]
    s.Consistent ∧ (∀ v, s.Mentions v → v.index < s.tableau.vars.slots.highWater) ∧
      (∀ id, s.MentionsRow id → s.tableau.rowSlots.isLive id.index) ∧
      ∀ c, s.tableau.vars.slots.highWater ≤ (s.perform c).2.tableau.vars.slots.highWater := by
  intro x s
  exact Reachable.references_agree ⟨_, _, rfl⟩

end Solver

end LexSimplex
