import LexSimplex.Proofs.Numbering

/-!
# What insertions and removals change of variables

An insertion that is accepted makes variables for its constraint and folds those that were pinned
into it, one that fails may leave variables that it made, and a removal takes the variables of its
constraint away and unfolds those that were folded into it. Of all other variables nothing changes
but their links.

Nothing here depends on the arithmetic.

## Main definitions

* `Tableau.Grown`: variables were made and folded, and the others stayed what they were.
* `Tableau.Entered`, `Tableau.Barren`: what an insertion leaves if it is accepted or fails.
* `Tableau.Withdrawn`: what a removal leaves.

## Main results

* `Tableau.WellFormed.insert_or`: an insertion is accepted or fails, and leaves what is said of it.
* `Tableau.WellFormed.withdrawn`: a removal leaves what is said of it.
-/

namespace LexSimplex

variable {K Q : Type}

/-- Where nothing is found the handle is not live. -/
theorem VariablePool.not_isLive_of_get? {p : VariablePool Q} {v : VarId} (h : p.get? v = none) :
    ¬p.isLive v := by
  rw [isLive_iff, h]
  rintro ⟨x, hx⟩
  exact absurd hx (by simp)

namespace Variable

/-- Folding a variable in several times counts as many times. -/
theorem iterate_retainFold (n : Nat) (x : Variable Q) :
    retainFold^[n] x = { x with folds := x.folds + n } := by
  induction n generalizing x with
  | zero => rfl
  | succ n ih =>
      rw [Function.iterate_succ_apply, ih, retainFold, Nat.add_assoc, Nat.add_comm 1]

/-- Releasing a variable several times counts as many times. -/
theorem iterate_releaseFold (n : Nat) (x : Variable Q) :
    releaseFold^[n] x = { x with folds := x.folds - n } := by
  induction n generalizing x with
  | zero => rfl
  | succ n ih =>
      rw [Function.iterate_succ_apply, ih, releaseFold, Nat.sub_sub, Nat.add_comm 1]

/-- A variable is **plain** if it is not external, not pinned and at zero, and no constraint has it
folded in. -/
structure Plain [Scalar Q] (x : Variable Q) : Prop where
  kind_ne : x.kind ≠ .external
  pinned_eq : x.pinned = false
  computed_eq : x.computed = 0
  folds_eq : x.folds = 0

/-- Whether a variable is plain depends on its core. -/
theorem Plain.of_core_eq [Scalar Q] {x y : Variable Q} (h : x.Plain) (hcore : x.core = y.core) :
    y.Plain :=
  ⟨fun hk => h.kind_ne ((congrArg Variable.kind hcore :).trans hk),
    (congrArg Variable.pinned hcore :).symm.trans h.pinned_eq,
    (congrArg Variable.computed hcore :).symm.trans h.computed_eq,
    (congrArg Variable.folds hcore :).symm.trans h.folds_eq⟩

end Variable

namespace Tableau

variable [Coefficient K] {t t' : Tableau K Q} {v : VarId} {id : ConstraintId} {c : Constraint K}

/-! ### Insertions -/

section Insertions

variable [Scalar Q]

/-- A tableau has **grown** into another if the variables in `folded` were folded once more for
each time they are listed there, new variables are plain, and nothing else changed of a variable
but its links. -/
structure Grown (folded : List VarId) (t t' : Tableau K Q) : Prop where
  wellFormed : t'.WellFormed
  old : ∀ v x, t.vars.get? v = some x → ∃ x', t'.vars.get? v = some x' ∧
    x'.core = { x.core with folds := x.folds + folded.count v }
  new : ∀ v x, t.vars.get? v = none → t'.vars.get? v = some x → x.Plain

/-- A variable of a tableau that has **grown** is new, or was there before and is folded more. -/
theorem Grown.of_get? {folded : List VarId} (h : t.Grown folded t') {x' : Variable Q}
    (hx' : t'.vars.get? v = some x') : (t.vars.get? v = none ∧ x'.Plain) ∨
      ∃ x, t.vars.get? v = some x ∧
        x'.core = { x.core with folds := x.folds + folded.count v } := by
  cases hx : t.vars.get? v with
  | none => exact .inl ⟨rfl, h.new v x' hx hx'⟩
  | some x =>
      obtain ⟨y, hy, hcore⟩ := h.old v x hx
      exact .inr ⟨x, rfl, Option.some.inj (hy.symm.trans hx') ▸ hcore⟩

/-- An insertion is **barren** if no constraint was entered. -/
structure Barren (t t' : Tableau K Q) : Prop where
  grown : Grown [] t t'
  constraints_eq : t'.constraints = t.constraints
  entered_eq : t'.entered = t.entered

variable [Precision K Q] {request : Request K} {relation : Relation}

/-- A constraint was **entered** under the next handle: the values of the folded variables that it
names went into it, the pinned ones among these are its `folded` variables, and variables were made
for it. -/
structure Entered (t : Tableau K Q) (c : Constraint K) (t' : Tableau K Q) : Prop where
  grown : Grown c.tag.folded t t'
  isLive : ∀ v ∈ c.request.expr.vars, t.vars.isLive v
  values_eq : c.values = t.valuesIn c.request.expr
  folded_eq : c.tag.folded = t.pinnedIn c.request.expr
  fresh : ∀ v ∈ c.tag.vars, t.vars.get? v = none
  constraints_eq : t'.constraints = t.constraints.insert t.nextConstraint c
  entered_eq : t'.entered = t.entered + 1

/-- Placing a draft leaves live variables what they were, and those made for it plain: a variable
that is live only afterwards was made for the request. -/
theorem Linked.core_placed (h : t.Linked none) (request : Request K) (relation : Relation)
    (v : VarId) :
    (∀ x, t.vars.get? v = some x →
      ∃ x', (t.placed request relation).2.vars.get? v = some x' ∧ x'.core = x.core) ∧
    ∀ x, t.vars.get? v = none → (t.placed request relation).2.vars.get? v = some x →
      x.Plain := by
  have hdrafted := h.draft request relation
  have hjoined := hdrafted.joined
  have hsame : (t.draft request relation).2.SameVars (t.placed request relation).2 :=
    (Linked.place (hdrafted.placeable h)).2
  refine ⟨fun x hx => ?_, fun x hnone hx => ?_⟩
  · have hlive : t.vars.isLive v := VariablePool.isLive_iff.mpr ⟨x, hx⟩
    refine hsame.get?_eq_some ?_
    rw [hjoined.old v (hjoined.notMem_of_isLive hlive), hx]
  · have hcore := hsame.core_eq v
    rw [hx, Option.map_some] at hcore
    obtain ⟨y, hy, hyx⟩ := Option.map_eq_some_iff.mp hcore.symm
    have hmade : v ∈ (t.draft request relation).1.constraint.tag.vars := by
      by_contra hnot
      rw [hjoined.old v hnot, hnone] at hy
      exact absurd hy (by simp)
    obtain ⟨z, hz, hpinned, hcomputed, hfolds⟩ := hjoined.new v hmade
    obtain rfl : y = z := Option.some.inj (hy.symm.trans hz)
    have hkind : y.kind ≠ .external := kind_of_get? hy ▸ hjoined.kind_ne_external hmade
    exact Variable.Plain.of_core_eq ⟨hkind, hpinned, hcomputed, hfolds⟩ hyx

/-- Placing a draft enters no constraint yet. -/
theorem Linked.constraints_placed (h : t.Linked none) (request : Request K) (relation : Relation) :
    (t.placed request relation).2.constraints = t.constraints ∧
      (t.placed request relation).2.entered = t.entered :=
  have hjoined := (h.draft request relation).joined
  hjoined.constraints ▸ hjoined.entered ▸ constraints_place _ _

/-- So the handle that is given out next is the one that it was. -/
theorem Linked.nextConstraint_placed (h : t.Linked none) (request : Request K)
    (relation : Relation) : (t.placed request relation).2.nextConstraint = t.nextConstraint :=
  congrArg ConstraintId.nth (h.constraints_placed request relation).2

/-- A draft that was placed is registered as an entered constraint. The variables that are made for
a request are not named by it, so none of them is folded. -/
theorem Linked.entered_register (h : t.Linked none)
    (hlive : ∀ v ∈ request.expr.vars, t.vars.isLive v)
    (hwell : ((t.placed request relation).2.register
      (t.draft request relation).1.constraint).2.WellFormed) :
    t.Entered (t.draft request relation).1.constraint
      ((t.placed request relation).2.register (t.draft request relation).1.constraint).2 := by
  have hplaced := h.core_placed request relation
  have hdrafted := h.draft request relation
  obtain ⟨hcons, hnext⟩ := h.constraints_placed request relation
  set c := (t.draft request relation).1.constraint with hc
  obtain ⟨hcons', hnext'⟩ := constraints_register (t.placed request relation).2 c
  have hget := get?_register (t.placed request relation).2 c
  refine ⟨⟨hwell, fun v x hx => ?_, fun v x hnone hx => ?_⟩, ?_, ?_, ?_, hdrafted.joined.fresh, ?_,
    ?_⟩
  · obtain ⟨y, hy, hyx⟩ := (hplaced v).1 x hx
    refine ⟨_, (hget v).trans (congrArg _ hy), ?_⟩
    have hfolds := (congrArg Variable.folds hyx :)
    rw [Variable.iterate_retainFold, ← hyx, ← show y.folds = x.folds from hfolds]
    rfl
  · rw [hget] at hx
    obtain ⟨y, hy, hyx⟩ := Option.map_eq_some_iff.mp hx
    have hcount : c.tag.folded.count v = 0 := by
      rw [List.count_eq_zero, hc, hdrafted.folded_eq]
      intro hmem
      exact VariablePool.not_isLive_of_get? hnone (hlive v (List.mem_of_mem_filter hmem))
    rw [hcount] at hyx
    exact hyx ▸ (hplaced v).2 y hnone hy
  · rwa [hdrafted.request_eq]
  · rw [hdrafted.request_eq, hdrafted.values_eq]
  · rw [hdrafted.request_eq, hdrafted.folded_eq]
  · rw [hcons', hcons, h.nextConstraint_placed]
  · rw [hnext', hnext]

/-- A draft that was placed and is discarded again leaves what a barren insertion leaves. -/
theorem Linked.barren_discard (h : t.Linked none) (f : Counters → Counters)
    (hwell : (((t.draft request relation).1.constraint.tag.vars.foldl Tableau.discard
      (t.placed request relation).2).count f).WellFormed) :
    t.Barren (((t.draft request relation).1.constraint.tag.vars.foldl Tableau.discard
      (t.placed request relation).2).count f) := by
  have hplaced := h.core_placed request relation
  have hdrafted := h.draft request relation
  obtain ⟨hcons, hnext⟩ := h.constraints_placed request relation
  set vs := (t.draft request relation).1.constraint.tag.vars with hvs
  obtain ⟨hcons', hnext'⟩ := constraints_foldl_discard vs (t.placed request relation).2
  have hlinked : (t.placed request relation).2.Linked none :=
    (Linked.place (hdrafted.placeable h)).1
  have hvars : ((vs.foldl Tableau.discard (t.placed request relation).2).count f).vars =
      (vs.foldl Tableau.discard (t.placed request relation).2).vars := vars_count _ f
  refine ⟨⟨hwell, fun v x hx => ?_, fun v x hnone hx => ?_⟩, ?_, ?_⟩
  · have hnot : v ∉ vs :=
      hdrafted.joined.notMem_of_isLive (VariablePool.isLive_iff.mpr ⟨x, hx⟩)
    obtain ⟨y, hy, hyx⟩ := (hplaced v).1 x hx
    have hcore := (hlinked.core_foldl_discard vs v).trans (if_neg hnot)
    rw [hy, Option.map_some] at hcore
    obtain ⟨z, hz, hzy⟩ := Option.map_eq_some_iff.mp hcore
    refine ⟨z, ?_, hzy.trans hyx⟩
    rw [← hz, ← hvars]
  · have hcore := hlinked.core_foldl_discard vs v
    rw [← hvars, hx, Option.map_some] at hcore
    split at hcore
    · exact absurd hcore (by simp)
    · obtain ⟨y, hy, hyx⟩ := Option.map_eq_some_iff.mp hcore.symm
      exact ((hplaced v).2 y hnone hy).of_core_eq hyx
  · rw [constraints_count, hcons', hcons]
  · rw [entered_count, hnext', hnext]

/-- An **insertion** that is accepted enters a constraint, and one that fails is barren. -/
theorem WellFormed.insert_or (h : t.WellFormed) (request : Request K) (relation : Relation) :
    (∃ c, (t.insert request relation).1 = .ok t.nextConstraint ∧ c.request = request ∧
      c.relation = relation ∧ t.Entered c (t.insert request relation).2) ∨
    ∃ fault, (t.insert request relation).1 = .error fault ∧
      t.Barren (t.insert request relation).2 := by
  have hwell := (h.insert request relation).1
  have hplaced := h.linked.core_placed request relation
  have hdrafted := h.linked.draft request relation
  obtain ⟨hcons, hnext⟩ := h.linked.constraints_placed request relation
  revert hwell
  refine insert_cases (p := fun result => result.2.WellFormed →
    (∃ c, result.1 = .ok t.nextConstraint ∧ c.request = request ∧ c.relation = relation ∧
      t.Entered c result.2) ∨ ∃ fault, result.1 = .error fault ∧ t.Barren result.2) ?_ ?_ ?_ ?_
  · intro w _ _ hwell
    refine .inr ⟨_, rfl, ⟨hwell, fun v x hx => ⟨x, hx, rfl⟩, fun v x hnone hx => ?_⟩, rfl, rfl⟩
    rw [hnone] at hx
    exact absurd hx (by simp)
  · intro fault _ _ hwell
    exact .inr ⟨fault, rfl, ⟨hwell, fun v => (hplaced v).1, fun v => (hplaced v).2⟩, hcons, hnext⟩
  · intro hlive _ hwell
    exact .inl ⟨_, by rw [h.linked.nextConstraint_placed], hdrafted.request_eq,
      hdrafted.relation_eq, h.linked.entered_register hlive hwell⟩
  · intro text f _ _ hwell
    exact .inr ⟨_, rfl, h.linked.barren_discard f hwell⟩

end Insertions

/-! ### Removals -/

/-- A constraint was **withdrawn**: its variables are gone, those folded into it are folded once
less for each time they are listed, and nothing else changed of a variable but its links. -/
structure Withdrawn (t : Tableau K Q) (id : ConstraintId) (c : Constraint K)
    (t' : Tableau K Q) : Prop where
  wellFormed : t'.WellFormed
  old : ∀ v x, v ∉ c.tag.vars → t.vars.get? v = some x → ∃ x', t'.vars.get? v = some x' ∧
    x'.core = { x.core with folds := x.folds - c.tag.folded.count v }
  gone : ∀ v ∈ c.tag.vars, t'.vars.get? v = none
  notNew : ∀ v, t.vars.get? v = none → t'.vars.get? v = none
  constraints_eq : t'.constraints = t.constraints.erase id
  entered_eq : t'.entered = t.entered

/-- What a removal makes of a variable. -/
theorem Linked.core_withdraw (h : t.Linked none) (id : ConstraintId) (tag : Tag) (v : VarId) :
    ((t.withdraw id tag).vars.get? v).map Variable.core =
      if v ∈ tag.vars then none
      else (t.vars.get? v).map fun x =>
        { x.core with folds := x.folds - tag.folded.count v } := by
  obtain ⟨hremoved, hsame⟩ := (h.unlisted id tag).removeEquation tag.marker
  rw [withdraw_eq, hremoved.core_foldl_discard]
  refine if_congr Iff.rfl rfl ?_
  rw [hsame.core_eq]
  obtain ⟨g, hg⟩ := foldl_unpenalise tag.vars (tag.folded.foldl
    (fun t v => t.modifyVar v Variable.releaseFold)
      { t with constraints := t.constraints.erase id })
  have hget : (t.unlisted id tag).vars.get? v = _ := (congrArg (fun t => t.vars.get? v) hg).trans
    (get?_foldl_modifyVar Variable.releaseFold tag.folded _ v)
  rw [hget, Option.map_map]
  refine congrArg (fun f => (t.vars.get? v).map f) (funext fun x => ?_)
  rw [Function.comp_apply, Variable.iterate_releaseFold]
  rfl

/-- A **removal** withdraws the constraint. -/
theorem WellFormed.withdrawn (h : t.WellFormed) (hc : t.constraints.get? id = some c) :
    t.Withdrawn id c (t.withdraw id c.tag) := by
  have hcore := fun v => h.linked.core_withdraw id c.tag v
  refine ⟨(h.withdraw hc).1, fun v x hv hx => ?_, fun v hv => ?_, fun v hnone => ?_,
    constraints_withdraw t id c.tag, ?_⟩
  · have hmap := hcore v
    rw [if_neg hv, hx, Option.map_some] at hmap
    exact Option.map_eq_some_iff.mp hmap
  · have hmap := hcore v
    rw [if_pos hv] at hmap
    exact Option.map_eq_none_iff.mp hmap
  · have hmap := hcore v
    rw [hnone, Option.map_none, ite_self] at hmap
    exact Option.map_eq_none_iff.mp hmap
  · rw [withdraw_eq, (constraints_foldl_discard _ _).2, (constraints_removeEquation _ _).2,
      (constraints_unlisted _ _ _).2]

/-- A variable found after a **withdrawal** was there before it, and is folded less, at most. -/
theorem Withdrawn.of_get? (h : t.Withdrawn id c t') {x' : Variable Q}
    (hx' : t'.vars.get? v = some x') : ∃ x, t.vars.get? v = some x ∧
      x'.core = { x.core with folds := x.folds - c.tag.folded.count v } := by
  cases hx : t.vars.get? v with
  | none => exact absurd ((h.notNew v hx).symm.trans hx') (by simp)
  | some x =>
      have hv : v ∉ c.tag.vars := fun hv => absurd ((h.gone v hv).symm.trans hx') (by simp)
      obtain ⟨y, hy, hcore⟩ := h.old v x hv hx
      exact ⟨x, rfl, Option.some.inj (hy.symm.trans hx') ▸ hcore⟩

end Tableau

end LexSimplex
