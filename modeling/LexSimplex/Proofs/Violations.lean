import LexSimplex.Proofs.Attribution
import LexSimplex.Proofs.Bookkeeping
import LexSimplex.Proofs.FeasibleRemovals
import LexSimplex.Proofs.Optimality

/-!
# The goal as residual violation

A soft constraint has two variables of its own, one for each direction in which its expression can
be off zero, or one for the room that an inequality leaves. They stand in its equation with opposite
signs, so moving both by the same amount is not seen by any row: hence they are never both basic.
One of them is zero, and the other says by how much the constraint is violated.

So the constant of the goal is at each tier by how much the soft constraints of that strength are
violated at the values that a caller is told, optimised or not, as long as the tableau is
basic-feasible.

This takes a caller who removes no hidden constraint. Without the one that holds a pinned variable
the tableau moves on, and the caller is still told the pinned value. A handle from before a reset
can be that of such a constraint. And it takes handles that have not come round: what overwrites a
soft constraint is not charged for it, and its rows and prices stay.

## Main definitions

* `Relation.violation`: by how much a value is off its relation to zero.
* `Tableau.residual`: by how much the soft constraints of a strength are violated in sum.
* `Session.Orderly`: a careful command whose request has no error terms of its own, and in whose
  insertion pivoting does not fail.

## Main results

* `Tableau.Authored.exists_pair`: the two variables of a soft constraint are never both basic.
* `Constraint.Fit.charge_eq`: a constraint is charged its violation.
* `Session.Run.goal_eq_residual`: the constant of the goal is the residual violation.
* `Ledger.goal_ne_residual_of_unfastened`: it need not be if handles outlive a reset.
-/

namespace LexSimplex

open Function (update update_self update_of_ne)

/-! ### Violations -/

/-- By how much a value is off its relation to zero. -/
def Relation.violation (relation : Relation) (x : Rat) : Rat :=
  match relation with
  | .eq => |x|
  | .le => max 0 x
  | .ge => max 0 (-x)

namespace Constraint

variable {c : Constraint Rat} {a : Assignment} {s : Strength}

/-- The two variables of a soft constraint without error terms stand in its equation with opposite
signs. It is charged for both if it is an equality, and for the second if it is an inequality. -/
theorem Fit.exists_other (h : c.Fit) (hsoft : ¬c.request.strength.hard)
    (herrors : c.request.errors = []) : ∃ other, c.tag.vars = [c.tag.marker, other] ∧
      (∀ a, c.equation.eval a = c.expr.eval a +
        if c.relation = .le then a c.tag.marker - a other else a other - a c.tag.marker) ∧
      ∀ s a, c.charge s a = (TierVector.unit c.request.strength).get s *
        if c.relation = .eq then a c.tag.marker + a other else a other := by
  have hother := h.other_isNone
  have hextra := h.extra_length
  rw [herrors, List.length_nil, List.length_eq_zero_iff] at hextra
  rw [Bool.not_eq_true] at hsoft
  obtain ⟨other, hother⟩ : ∃ other, c.tag.other = some other := by
    refine Option.isSome_iff_exists.mp ?_
    rw [← Option.not_isNone, hother, hsoft]
    rfl
  have hvars : c.tag.vars = [c.tag.marker, other] := by
    rw [Tag.vars, hother, hextra]
    rfl
  refine ⟨other, hvars, fun a => ?_, fun s a => ?_⟩
  · rw [eval_equation, h.ownTerms_eq, hvars, parts, herrors, List.map_nil, List.append_nil]
    cases c.relation with
    | eq => simp [relationParts, equalityParts, hsoft, Part.coefficient]; ring
    | le => simp [relationParts, inequalityParts, hsoft, Part.coefficient]; ring
    | ge => simp [relationParts, inequalityParts, hsoft, Part.coefficient]; ring
  · rw [charge, hvars, parts, herrors, List.map_nil, List.append_nil]
    cases c.relation with
    | eq => simp [relationParts, equalityParts, hsoft, Part.price]; ring
    | le => simp [relationParts, inequalityParts, hsoft, Part.price]
    | ge => simp [relationParts, inequalityParts, hsoft, Part.price]

/-- A hard constraint without error terms is charged nothing. -/
theorem charge_of_hard (hhard : c.request.strength.hard) (herrors : c.request.errors = [])
    (s : Strength) (a : Assignment) : c.charge s a = 0 := by
  rw [charge, parts, herrors, Tag.vars]
  cases c.relation with
  | eq => simp [relationParts, equalityParts, hhard, Part.price]
  | le => simp [relationParts, inequalityParts, hhard, Part.price]
  | ge => simp [relationParts, inequalityParts, hhard, Part.price]

/-- A **soft constraint** without error terms is charged its violation where its equation holds, its
variables are not negative and one of them is zero. -/
theorem Fit.charge_eq (h : c.Fit) (hsoft : ¬c.request.strength.hard)
    (herrors : c.request.errors = []) (hholds : c.Holds a) (hnonneg : ∀ v ∈ c.tag.vars, 0 ≤ a v)
    (hzero : ∃ v ∈ c.tag.vars, a v = 0) (s : Strength) : c.charge s a =
      (TierVector.unit c.request.strength).get s * c.relation.violation (c.expr.eval a) := by
  obtain ⟨other, hvars, hequation, hcharge⟩ := h.exists_other hsoft herrors
  rw [Holds, hequation] at hholds
  rw [hvars] at hnonneg hzero
  have hmarker : 0 ≤ a c.tag.marker := hnonneg _ List.mem_cons_self
  have hother : 0 ≤ a other := hnonneg _ (List.mem_cons_of_mem _ List.mem_cons_self)
  have hzero : a c.tag.marker = 0 ∨ a other = 0 := by simpa using hzero
  rw [hcharge]
  congr 1
  cases hrelation : c.relation with
  | eq =>
      rw [hrelation, if_neg (by simp)] at hholds
      have hvalue : c.expr.eval a = a c.tag.marker - a other := by linarith
      rw [if_pos rfl, Relation.violation, hvalue]
      rcases hzero with hz | hz
      · rw [hz, zero_sub, abs_neg, abs_of_nonneg hother, zero_add]
      · rw [hz, sub_zero, abs_of_nonneg hmarker, add_zero]
  | le =>
      rw [hrelation, if_pos rfl] at hholds
      have hvalue : c.expr.eval a = a other - a c.tag.marker := by linarith
      rw [if_neg (by simp), Relation.violation, hvalue]
      rcases hzero with hz | hz
      · rw [hz, sub_zero, max_eq_right hother]
      · rw [hz, zero_sub, max_eq_left (neg_nonpos.mpr hmarker)]
  | ge =>
      rw [hrelation, if_neg (by simp)] at hholds
      have hvalue : c.expr.eval a = a c.tag.marker - a other := by linarith
      rw [if_neg (by simp), Relation.violation, hvalue, neg_sub]
      rcases hzero with hz | hz
      · rw [hz, sub_zero, max_eq_right hother]
      · rw [hz, zero_sub, max_eq_left (neg_nonpos.mpr hmarker)]

end Constraint

namespace Tableau

variable {t u : Tableau Rat Rat} {own : VarId → Prop} {id : ConstraintId} {c : Constraint Rat}

/-! ### Pairs -/

/-- **Pairs.** The two variables of a soft constraint are never both basic, so that one of them is
zero: no equation would notice if both were moved by one, but the variables that are not basic
determine the others. -/
theorem Authored.exists_pair (h : t.Authored own) (hroom : t.Unwrapped)
    (hc : t.constraints.get? id = some c) (hsoft : ¬c.request.strength.hard)
    (herrors : c.request.errors = []) : ∃ v ∈ c.tag.vars, t.rowValue v = 0 := by
  have hlinked := h.faithful.wellFormed.linked
  have hfit := h.faithful.fit id c hc
  obtain ⟨other, hvars, hequation, -⟩ := hfit.exists_other hsoft herrors
  have hmarker : c.tag.marker ∈ c.tag.vars := List.mem_cons_self
  have hother : other ∈ c.tag.vars := hvars ▸ List.mem_cons_of_mem _ List.mem_cons_self
  have hne : c.tag.marker ≠ other := by
    have hnodup := hfit.nodup
    rw [hvars] at hnodup
    simpa using hnodup
  by_contra hnone
  push Not at hnone
  have hbasic : ∀ v ∈ c.tag.vars, t.IsBasic v := by
    intro v hv
    by_contra hb
    exact hnone v hv (hlinked.rowValue_of_not_isBasic hb)
  let b := update (update t.rowValue c.tag.marker (t.rowValue c.tag.marker + 1)) other
    (t.rowValue other + 1)
  have hbmarker : b c.tag.marker = t.rowValue c.tag.marker + 1 := by
    rw [show b c.tag.marker = _ from update_of_ne hne _ _, update_self]
  have hbother : b other = t.rowValue other + 1 := update_self other _ _
  have hexpr : c.expr.eval b = c.expr.eval t.rowValue := by
    refine Constraint.eval_expr_congr fun w hw _ => ?_
    have hw : ∀ v ∈ c.tag.vars, w ≠ v := fun v hv => fun heq => hfit.notMem v hv (heq ▸ hw)
    rw [show b w = _ from update_of_ne (hw other hother) _ _, update_of_ne (hw _ hmarker)]
  have hstand := h.faithful.holds _ hlinked.satisfies_rowValue
  have hsat : t.Satisfies b := by
    refine h.faithful.satisfies hroom b fun id' c' hc' => ?_
    rcases eq_or_ne id' id with rfl | hid
    · obtain rfl : c = c' := Option.some.inj (hc.symm.trans hc')
      have hholds := hstand id' c hc
      rw [Constraint.Holds, hequation] at hholds ⊢
      rw [← hholds, hexpr, hbmarker, hbother]
      congr 1
      split <;> ring
    · refine (h.holds_update hc hother hid hc' _).mpr ?_
      exact (h.holds_update hc hmarker hid hc' _).mpr (hstand id' c' hc')
  have hsame := hlinked.eq_rowValue hsat fun v hv => by
    have hw : ∀ w ∈ c.tag.vars, v ≠ w := fun w hw heq => hv (heq ▸ hbasic w hw)
    rw [show b v = _ from update_of_ne (hw other hother) _ _, update_of_ne (hw _ hmarker)]
    exact hlinked.rowValue_of_not_isBasic hv
  rw [hsame] at hbother
  linarith

/-! ### Error terms -/

/-- A tableau is **plain** if no constraint has error terms of its own. -/
def Plain (t : Tableau Rat Rat) : Prop :=
  ∀ id c, t.constraints.get? id = some c → c.request.errors = []

/-- Whether a tableau is plain depends on the constraints. -/
theorem Plain.of_constraints_eq (h : t.Plain) (hcons : u.constraints = t.constraints) :
    u.Plain := by
  rw [Plain, hcons]
  exact h

/-- The insertion of a request without error terms keeps a tableau plain. -/
theorem Plain.insert (h : t.Plain) (hwell : t.WellFormed) {request : Request Rat}
    (herrors : request.errors = []) (relation : Relation) :
    (t.insert request relation).2.Plain := by
  obtain ⟨hentered, hkept⟩ := hwell.linked.constraints_insert request relation
  cases hresult : (t.insert request relation).1 with
  | error fault => exact h.of_constraints_eq (hkept fault hresult)
  | ok id =>
      obtain ⟨rfl, -, hcons⟩ := hentered id hresult
      rw [Plain, hcons]
      refine Assoc.forall_get?_insert_of_forall ?_ h
      rw [(hwell.linked.draft request relation).request_eq]
      exact herrors

/-- Edits that request positions keep a tableau plain. -/
theorem Plain.leads (h : t.Plain) (hwell : t.WellFormed)
    (hu : t.Leads (Solver.Positions Rat) u) : u.WellFormed ∧ u.Plain := by
  induction hu with
  | refl => exact ⟨hwell, h⟩
  | insert _ hasked ih =>
      obtain ⟨v, x, rfl, rfl⟩ := hasked
      exact ⟨(ih.1.insert _ _).1, ih.2.insert ih.1 rfl _⟩
  | remove _ id ih =>
      refine remove_cases (p := fun result => result.2.WellFormed ∧ result.2.Plain) (fun _ => ih)
        fun c hc => ⟨(ih.1.withdraw hc).1, ?_⟩
      rw [Plain, constraints_withdraw, Assoc.forall_get?_erase]
      exact fun id' c' _ => ih.2 id' c'
  | pin _ v x ih => exact ⟨ih.1.modifyVar v (f := (·.pin x)) fun _ => rfl, ih.2⟩
  | unpin _ v ih => exact ⟨ih.1.modifyVar v (f := Variable.unpin) fun _ => rfl, ih.2⟩
  | count _ f ih => exact ⟨ih.1.count f, ih.2.of_constraints_eq (constraints_count _ f)⟩

/-! ### Residual violation -/

/-- The variables of a soft constraint may not be negative. -/
theorem Regular.restricted_own (h : t.Regular) (hc : t.constraints.get? id = some c)
    (hsoft : ¬c.request.strength.hard) {v : VarId} (hv : v ∈ c.tag.vars) :
    (t.kind v).restricted := by
  have hmem : t.kind v ∈ (parts c.request c.relation).map Part.kind :=
    h.kinds id c hc ▸ List.mem_map_of_mem hv
  obtain ⟨p, hp, hkind⟩ := List.mem_map.mp hmem
  rw [← hkind]
  rcases List.mem_append.mp hp with hp | hp
  · cases hrelation : c.relation with
    | eq =>
        rw [hrelation, relationParts, equalityParts, if_neg hsoft] at hp
        rcases List.mem_pair.mp hp with rfl | rfl <;> rfl
    | le =>
        rw [hrelation, relationParts, inequalityParts, if_neg hsoft] at hp
        rcases List.mem_pair.mp hp with rfl | rfl <;> rfl
    | ge =>
        rw [hrelation, relationParts, inequalityParts, if_neg hsoft] at hp
        rcases List.mem_pair.mp hp with rfl | rfl <;> rfl
  · obtain ⟨error, -, rfl⟩ := List.mem_map.mp hp
    rfl

/-- The **residual violation** of a tableau at a tier: by how much the soft constraints of that
strength are violated in sum, at the values that a caller is told. -/
def residual (t : Tableau Rat Rat) (s : Strength) : Rat :=
  ((t.constraints.filter fun x => x.2.request.strength = s ∧ ¬s.hard).map fun x =>
    x.2.relation.violation (x.2.expr.eval t.value)).sum

end Tableau

namespace Solver

open Tableau (Plain)

/-- A tableau stays plain, whatever a solver does of its own accord. -/
theorem durable_plain : Durable fun t : Tableau Rat Rat => t.WellFormed ∧ t.Plain := by
  refine ⟨fun t u hu h => h.2.leads h.1 hu, fun t kind stem h => ?_, fun t h => ?_, fun t h => ?_,
    fun t _ => ?_, fun t h => ?_⟩
  · exact ⟨h.1.addVariable kind stem,
      h.2.of_constraints_eq (Tableau.constraints_addVariable t kind stem)⟩
  · exact ⟨h.1.minimise .goal, h.2.of_constraints_eq (Tableau.constraints_minimise .goal t)⟩
  · exact ⟨h.1.settle, h.2⟩
  · exact ⟨.of_nothing rfl rfl rfl (VariablePool.get?_reset t.vars)
      (Pool.get?_reset t.rowSlots), fun _ _ hc => absurd hc (by simp [Tableau.reset])⟩
  · exact ⟨h.1.of_links rfl rfl rfl rfl rfl (fun _ => rfl) (Nat.le_refl _), h.2⟩

/-- The constant of the goal is the residual violation, where every price is a constraint's and the
notes of a solver are right. -/
theorem Sound.constant_eq_residual {s : Solver Rat Rat} {own : VarId → Prop} (h : s.Sound own)
    (hroom : s.tableau.Unwrapped) (hreachable : s.Reachable) (hspelled : s.tableau.Spelled own)
    (hfeasible : s.tableau.BasicFeasible) (hattributed : s.tableau.Attributed)
    (hplain : s.tableau.Plain) (tier : Strength) :
    s.tableau.goal.constant.get tier = s.tableau.residual tier := by
  have hregular := hreachable.regular
  have hfaithful := hspelled.authored.faithful
  have hlinked := hregular.wellFormed.linked
  obtain ⟨es, hes⟩ := hreachable.exists_history
  have hlisted := hes.tally_eq.1
  obtain ⟨a, hsat, htold⟩ := h.exists_told hroom hspelled hregular hfeasible
  have hcharge : ∀ x ∈ s.tableau.constraints, x.2.charge tier s.tableau.rowValue =
      if x.2.request.strength = tier ∧ ¬tier.hard then
        x.2.relation.violation (x.2.expr.eval s.tableau.value) else 0 := by
    rintro ⟨id, c⟩ hx
    have hc : s.tableau.constraints.get? id = some c :=
      (Assoc.get?_eq_some_iff hlisted.nodup).mpr hx
    have herrors := hplain id c hc
    dsimp only
    by_cases hhard : c.request.strength.hard
    · rw [Constraint.charge_of_hard hhard herrors, if_neg]
      rintro ⟨rfl, hsoft⟩
      exact hsoft hhard
    · obtain ⟨hown, hvalue⟩ := htold id c hc
      have hfit := hfaithful.fit id c hc
      have hholds : c.Holds a := hfaithful.holds a hsat id c hc
      have hnonneg : ∀ v ∈ c.tag.vars, 0 ≤ a v := fun v hv => by
        rw [hown v hv]
        exact (hfeasible.respects_rowValue hlinked v).1 (hregular.restricted_own hc hhard hv)
      obtain ⟨v, hv, hzero⟩ := hspelled.authored.exists_pair hroom hc hhard herrors
      have hsame : c.charge tier s.tableau.rowValue = c.charge tier a :=
        c.charge_congr tier fun w hw => (hown w hw).symm
      rw [hsame, hfit.charge_eq hhard herrors hholds hnonneg ⟨v, hv, (hown v hv).trans hzero⟩,
        hvalue, TierVector.get_unit]
      by_cases hs : c.request.strength = tier
      · rw [if_pos hs.symm, one_mul, if_pos ⟨hs, hs ▸ hhard⟩]
      · rw [if_neg (Ne.symm hs), zero_mul, if_neg fun hw => hs hw.1]
  rw [← congrArg (·.get tier) (hreachable.balanced.penalty_rowValue hlinked),
    (hattributed.charged hlisted hroom).get_penalty_eq, List.map_map, Tableau.residual]
  refine (congrArg List.sum (List.map_congr_left hcharge)).trans ?_
  rw [List.sum_map_ite]
  simp

end Solver

/-! ### Sessions -/

namespace Session

section Orderly

variable {K Q : Type} [Coefficient K] [Scalar Q] [Precision K Q]

/-- A command is **orderly** if it is careful, the request that it makes has no error terms of its
own, and pivoting does not fail in the insertion of that request. -/
def Orderly (s : Session K Q) (c : Command K Q) : Prop :=
  s.Careful c ∧ (∀ x ∈ c.request?, x.1.errors = []) ∧
    (c.request?.isSome → Settled (s.solver.perform c).1)

instance [DecidableEq K] (s : Session K Q) (c : Command K Q) : Decidable (s.Orderly c) :=
  inferInstanceAs (Decidable (s.Careful c ∧ (∀ x ∈ c.request?, x.1.errors = []) ∧
    (c.request?.isSome → Settled (s.solver.perform c).1)))

end Orderly

variable {s : Session Rat Rat}

/-- An orderly run is careful. -/
theorem Run.careful (h : s.Run Session.Orderly) : s.Run Session.Careful :=
  h.mono fun _ _ hc => hc.1

/-- After an orderly run every price is a constraint's, and no constraint has error terms of its
own. -/
theorem Run.attributed (h : s.Run Session.Orderly) :
    s.solver.tableau.Attributed ∧ s.solver.tableau.Plain := by
  induction h with
  | start settings =>
      exact ⟨.of_nothing (.of_nothing rfl rfl rfl (fun _ => rfl) fun _ => rfl) (fun _ => rfl) rfl,
        fun _ _ hc => nomatch hc⟩
  | @step s c _ hc ih =>
      obtain ⟨hattributed, hplain⟩ := ih
      obtain ⟨-, herrors, hsettled⟩ := hc
      refine ⟨Solver.attributed_perform hattributed c hsettled, ?_⟩
      refine (Solver.durable_plain.perform ⟨hattributed.wellFormed, hplain⟩ c ?_).2
      intro request relation hrequest _
      exact ⟨(hattributed.wellFormed.insert request relation).1,
        hplain.insert hattributed.wellFormed (herrors _ hrequest) relation⟩

/-- **The goal is the residual violation.** After every orderly run that leaves the tableau
basic-feasible, whether it was optimised or not, and as long as fewer constraints were entered than
there are handles, the goal stands at each tier at the sum of the violations of the soft constraints
of that strength, at the values that a caller is told. -/
theorem Run.goal_eq_residual (h : s.Run Session.Orderly) (hroom : s.solver.tableau.Unwrapped)
    (hfeasible : s.solver.tableau.BasicFeasible) (tier : Strength) :
    s.solver.tableau.goal.constant.get tier = s.solver.tableau.residual tier := by
  have hcareful := h.careful
  have hspelled := (Tableau.lasting_spelled.keeping hcareful.authored).tableau
  obtain ⟨hattributed, hplain⟩ := h.attributed
  exact hcareful.sound.constant_eq_residual hroom h.reachable hspelled hfeasible hattributed hplain
    tier

/-- A session in which two positions are asked of one variable, a second is to be at least ten after
it and is pinned short of that, and the first request is taken back. -/
def quarrel : Session Rat Rat :=
  (((((((((start {}).perform (.declare .external "x")).perform (.declare .external "y")).perform
    (.arrange (.value ⟨0⟩ 9) .high)).perform (.arrange (.value ⟨0⟩ 5) .medium)).perform
    (.arrange (.value ⟨0⟩ 2) .low)).perform (.arrange (.greater ⟨1⟩ ⟨0⟩ 10) .low)).perform
    (.pin ⟨1⟩ 8)).perform (.remove ⟨0⟩)).perform .optimize

/-- At the lower tier the first variable is three off the second position, and the distance that was
asked for is seven short. -/
theorem goal_eq_residual_of_quarrel :
    quarrel.solver.tableau.Unwrapped ∧
      quarrel.solver.tableau.goal.constant.get .low = quarrel.solver.tableau.residual .low ∧
      quarrel.solver.tableau.residual .low = 10 := by
  have hrun : quarrel.Run Session.Orderly :=
    .step (.step (.step (.step (.step (.step (.step (.step (.step (.start {}) (by decide +kernel))
      (by decide +kernel)) (by decide +kernel)) (by decide +kernel)) (by decide +kernel))
      (by decide +kernel)) (by decide +kernel)) (by decide +kernel)) (by decide +kernel)
  have hroom : quarrel.solver.tableau.Unwrapped := by decide +kernel
  exact ⟨hroom, hrun.goal_eq_residual hroom (by decide +kernel) .low, by decide +kernel⟩

end Session

namespace Ledger

/-- A ledger in which a handle from before a reset was removed after it, when a variable was pinned
off the position that was asked of it: it was that of the hidden constraint. -/
def unfastened : Ledger Rat Rat :=
  [.declare .external "x", .arrange (.value ⟨0⟩ 4) .high, .arrange (.value ⟨0⟩ 5) .medium, .reset,
    .declare .external "x", .arrange (.value ⟨0⟩ 5) .medium, .pin ⟨0⟩ 3, .remove ⟨1⟩].foldl hoard
    ⟨Session.start {}, []⟩

/-- If handles from before a reset count as given out, the goal need not be the residual violation:
the tableau has the variable where it was asked to be, and the caller is told where it is pinned. -/
theorem goal_ne_residual_of_unfastened :
    unfastened.Run hoard ∧
      (unfastened.session.Run fun s c => s.Authored c ∧ (∀ x ∈ c.request?, x.1.errors = []) ∧
        Settled (s.solver.perform c).1) ∧
      unfastened.session.solver.tableau.BasicFeasible ∧
      unfastened.session.solver.tableau.goal.constant.get .medium = 0 ∧
      unfastened.session.solver.tableau.residual .medium = 2 := by
  refine ⟨?_, ?_, by decide +kernel, by decide +kernel, by decide +kernel⟩
  · iterate 8 refine .step ?_ (by decide +kernel) (by decide +kernel)
    exact .start {}
  · iterate 8 refine .step ?_ (by decide +kernel)
    exact .start {}

end Ledger

end LexSimplex
