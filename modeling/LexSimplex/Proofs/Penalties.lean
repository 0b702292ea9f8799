import Mathlib.Algebra.BigOperators.Group.Finset.Basic
import Mathlib.Algebra.Order.BigOperators.Group.Finset
import LexSimplex.Proofs.Displacement

/-!
# The goal as a penalty

The goal is patched with every operation and never computed anew. This module shows that it is, in
all solutions, the **penalty** of the live error variables: the sum of their values, each at the
tier that pays for it. Exchanges rewrite the goal in terms of other variables, a new error variable
is entered with its price, and what is taken out of the goal with a constraint is what its error
variables were priced at.

While a constraint is on its way in or out, the goal charges for something else than the prices of
the moment. So the invariant is stated for any cost that the goal may charge.

## Main definitions

* `Tableau.price`, `Tableau.penalty`: what a variable costs, and what an assignment does.
* `Tableau.Charges`: the goal has the values of a cost in all solutions.
* `Tableau.Balanced`: the goal charges the penalty.

## Main results

* `Tableau.Balanced.insert`, `Tableau.Balanced.withdraw`: insertions and removals keep it.
* `Tableau.Balanced.get_constant`, `Tableau.Balanced.get_coefficient`: the goal in terms of the
  rows.
* `Solver.Reachable.goal_eq_penalties`: the goal of every reachable solver.
-/

namespace LexSimplex

open Function (update update_self update_of_ne update_eq_self)

/-- The **price** of a variable: the vector of an error variable, zero for any other. -/
def Variable.price {K Q : Type} [Coefficient K] (x : Variable Q) : TierVector K :=
  if x.kind = .error then x.vector else TierVector.zero

namespace Tableau

variable {t t' : Tableau Rat Rat} {out : Option RowId} {r : Row Rat} {v : VarId}
  {a b : Assignment} {s : Strength}

/-- The price of a variable of a tableau, zero for one that is not live. -/
def price (t : Tableau Rat Rat) (v : VarId) : TierVector Rat :=
  ((t.vars.get? v).map Variable.price).getD TierVector.zero

/-- The **penalty** of an assignment: the values of the live variables at their prices. -/
def penalty (t : Tableau Rat Rat) (a : Assignment) : TierVector Rat :=
  .ofFn fun s => ∑ i ∈ Finset.range t.highWater, (t.price ⟨i⟩).get s * a ⟨i⟩

/-! ### Prices -/

/-- The price of a live variable is the one that its entry says. -/
theorem price_of_get? {x : Variable Rat} (h : t.vars.get? v = some x) : t.price v = x.price := by
  rw [price, h, Option.map_some, Option.getD_some]

/-- A variable that is not live has no price. -/
theorem price_of_not_isLive (h : ¬t.vars.isLive v) : t.price v = TierVector.zero := by
  rw [price, VariablePool.get?_of_not_isLive h]
  rfl

/-- The price of a variable does not depend on its links. -/
theorem SameVars.price_eq (h : t.SameVars t') (v : VarId) : t'.price v = t.price v := by
  rw [price, price, h.map_eq (f := Variable.price) (fun _ => rfl)]

/-- Prices depend on the variables. -/
theorem price_of_vars_eq (h : t'.vars = t.vars) (v : VarId) : t'.price v = t.price v := by
  rw [price, price, h]

/-- Flags and values do not matter to prices. -/
theorem price_modifyVar (t : Tableau Rat Rat) (v : VarId) {f : Variable Rat → Variable Rat}
    (hf : ∀ x, ((f x).price : TierVector Rat) = x.price) (w : VarId) :
    (t.modifyVar v f).price w = t.price w := by
  have hget : (t.modifyVar v f).vars.get? w = _ := VariablePool.get?_modify t.vars v f w
  rw [price, price, hget]
  by_cases hw : w = v
  · rw [if_pos hw, Option.map_map]
    exact congrArg (fun g => ((t.vars.get? w).map g).getD TierVector.zero) (funext hf)
  · rw [if_neg hw]

/-- Only error variables have a price, and it is not negative. -/
theorem price_nonneg (t : Tableau Rat Rat) (v : VarId) (s : Strength) :
    0 ≤ (t.price v).get s ∧ (t.kind v ≠ .error → (t.price v).get s = 0) := by
  rw [price, kind]
  cases t.vars.get? v with
  | none => simp
  | some x =>
      rw [Option.map_some, Option.map_some, Option.getD_some, Option.getD_some, Variable.price]
      by_cases hk : x.kind = .error
      · rw [if_pos hk, Variable.vector]
        refine ⟨?_, fun hne => absurd hk hne⟩
        cases x.penalty with
        | none => simp
        | some p =>
            rw [TierVector.get_unit]
            split <;> norm_num
      · rw [if_neg hk]
        simp

/-! ### Penalties -/

/-- The penalty may be summed over more slots than there are. -/
theorem get_penalty_of_le {n : Nat} (h : t.highWater ≤ n) (a : Assignment) (s : Strength) :
    (t.penalty a).get s = ∑ i ∈ Finset.range n, (t.price ⟨i⟩).get s * a ⟨i⟩ := by
  rw [penalty, TierVector.get_ofFn]
  refine Finset.sum_subset (Finset.range_subset_range.mpr h) fun i _ hi => ?_
  have hdead : ¬t.vars.isLive ⟨i⟩ := fun hlive =>
    hi (Finset.mem_range.mpr (VariablePool.lt_highWater_of_isLive hlive))
  rw [price_of_not_isLive hdead, TierVector.get_zero, zero_mul]

/-- How the penalty changes with the price and the value of a single variable. -/
theorem get_penalty_of_ne (hprice : ∀ w, w ≠ v → t'.price w = t.price w)
    (hvalue : ∀ w, w ≠ v → b w = a w) (s : Strength) :
    (t'.penalty b).get s =
      (t.penalty a).get s + ((t'.price v).get s * b v - (t.price v).get s * a v) := by
  set n := max (max t.highWater t'.highWater) (v.index + 1)
  have hn : t.highWater ≤ n := by omega
  have hn' : t'.highWater ≤ n := by omega
  rw [get_penalty_of_le hn, get_penalty_of_le hn', ← sub_eq_iff_eq_add', ← Finset.sum_sub_distrib]
  refine Finset.sum_eq_single_of_mem v.index (Finset.mem_range.mpr (by omega)) fun i _ hi => ?_
  have hne : (⟨i⟩ : VarId) ≠ v := fun heq => hi (congrArg VarId.index heq)
  rw [hprice _ hne, hvalue _ hne, sub_self]

/-- The penalty depends on the prices. -/
theorem penalty_congr (h : ∀ v, t'.price v = t.price v) (a : Assignment) :
    t'.penalty a = t.penalty a := by
  refine TierVector.ext_get fun s => ?_
  have hchange := get_penalty_of_ne (v := ⟨0⟩) (a := a) (fun w _ => h w) (fun _ _ => rfl) s
  rwa [h, sub_self, add_zero] at hchange

/-- The penalty where one variable has another value. -/
theorem get_penalty_update (t : Tableau Rat Rat) (a : Assignment) (v : VarId) (x : Rat)
    (s : Strength) : (t.penalty (update a v x)).get s =
      (t.penalty a).get s + (t.price v).get s * (x - a v) := by
  have hprice : ∀ w, w ≠ v → t.price w = t.price w := fun _ _ => rfl
  rw [get_penalty_of_ne hprice (fun w hw => update_of_ne hw x a), update_self]
  ring

/-- A variable without a price may have any value. -/
theorem penalty_update_of_price_eq_zero (h : t.price v = TierVector.zero) (a : Assignment)
    (x : Rat) : t.penalty (update a v x) = t.penalty a := by
  refine TierVector.ext_get fun s => ?_
  rw [get_penalty_update, h, TierVector.get_zero, zero_mul, add_zero]

/-- Where all variables are zero there is no penalty. -/
theorem penalty_zero (t : Tableau Rat Rat) (s : Strength) :
    (t.penalty fun _ => 0).get s = 0 := by
  rw [penalty, TierVector.get_ofFn]
  exact Finset.sum_eq_zero fun i _ => mul_zero _

/-- The penalty of what respects the kinds is not negative. -/
theorem Respects.penalty_nonneg (h : t.Respects a) (s : Strength) : 0 ≤ (t.penalty a).get s := by
  rw [penalty, TierVector.get_ofFn]
  refine Finset.sum_nonneg fun i _ => ?_
  obtain ⟨hnonneg, hzero⟩ := t.price_nonneg ⟨i⟩ s
  by_cases hk : t.kind ⟨i⟩ = .error
  · exact mul_nonneg hnonneg ((h ⟨i⟩).1 (by rw [hk]; rfl))
  · rw [hzero hk, zero_mul]

/-- The penalty of the solution with given values, in terms of the rows. It is got by moving the
basic variables to their values one row after another. -/
theorem Linked.get_penalty_extend (h : t.Linked out) (b : Assignment) (s : Strength) :
    (t.penalty (t.extend b)).get s = (t.penalty b).get s +
      (t.rows.map fun r => (t.price r.basic).get s * (r.expr.eval b - b r.basic)).sum := by
  have hvalue : ∀ r ∈ t.rows, t.extend b r.basic = r.expr.eval b := by
    intro r hr
    rw [extend, h.definition?_eq_some_iff.mpr ⟨hr, rfl⟩]
  have hother : ∀ v, (∀ r ∈ t.rows, r.basic ≠ v) → t.extend b v = b v := by
    intro v hv
    refine h.extend_of_not_isBasic ?_ b
    rintro ⟨r, hr, hb⟩
    exact hv r hr hb
  have hnodup : (t.rows.map Row.basic).Nodup := by
    rw [List.nodup_map_iff_inj_on h.nodup_ids.of_map]
    exact fun q hq r hr => h.eq_of_basic_eq hq hr
  generalize t.extend b = a at hvalue hother
  generalize t.rows = rows at hvalue hother hnodup ⊢
  induction rows generalizing a with
  | nil =>
      have hab : a = b := funext fun v => hother v fun r hr => absurd hr List.not_mem_nil
      rw [hab]
      simp
  | cons r rows ih =>
      obtain ⟨hr, hrows⟩ := List.nodup_cons.mp hnodup
      have hne : ∀ q ∈ rows, q.basic ≠ r.basic := fun q hq hqr =>
        hr (hqr ▸ List.mem_map_of_mem hq)
      have hrest := ih (a := update a r.basic (b r.basic)) (fun q hq => ?_) (fun v hv => ?_) hrows
      · rw [get_penalty_update, hvalue r List.mem_cons_self] at hrest
        rw [List.map_cons, List.sum_cons]
        linear_combination hrest
      · rw [update_of_ne (hne q hq)]
        exact hvalue q (List.mem_cons_of_mem r hq)
      · by_cases hvr : v = r.basic
        · rw [hvr, update_self]
        · rw [update_of_ne hvr]
          refine hother v fun q hq => ?_
          rcases List.mem_cons.mp hq with rfl | hq
          · exact Ne.symm hvr
          · exact hv q hq

/-! ### What the goal charges -/

/-- The goal **charges** a cost if it has the values of the cost in all solutions. -/
def Charges (t : Tableau Rat Rat) (c : Strength → Assignment → Rat) : Prop :=
  ∀ s a, t.Satisfies a → t.goal.evalAt s a = c s a

/-- A cost does not depend on a variable. -/
def Ignores (c : Strength → Assignment → Rat) (v : VarId) : Prop :=
  ∀ s a x, c s (update a v x) = c s a

/-- A tableau is **balanced** if its goal charges the penalty. -/
def Balanced (t : Tableau Rat Rat) : Prop :=
  t.Charges fun s a => (t.penalty a).get s

/-- The value of the goal in a solution. -/
theorem Balanced.evalAt (h : t.Balanced) (ha : t.Satisfies a) (s : Strength) :
    t.goal.evalAt s a = (t.penalty a).get s :=
  h s a ha

/-- The penalty ignores a variable without a price. -/
theorem ignores_penalty (h : t.price v = TierVector.zero) :
    Ignores (fun s a => (t.penalty a).get s) v :=
  fun s a x => congrArg (·.get s) (penalty_update_of_price_eq_zero h a x)

section Charges

variable {c c' : Strength → Assignment → Rat}

/-- With the same goal, it is enough that no solution is new. -/
theorem Charges.of_satisfies (h : t.Charges c) (hgoal : t'.goal = t.goal)
    (hsat : ∀ a, t'.Satisfies a → t.Satisfies a) : t'.Charges c := by
  intro s a ha
  rw [hgoal]
  exact h s a (hsat a ha)

/-- What a tableau charges depends on its goal and its rows. -/
theorem Charges.of_rows (h : t.Charges c) (hgoal : t'.goal = t.goal) (hrows : t'.rows = t.rows) :
    t'.Charges c :=
  h.of_satisfies hgoal fun _ => (satisfies_congr hrows).mp

/-- Costs that are the same everywhere are charged alike. -/
theorem Charges.congr (h : t.Charges c) (hc : ∀ s a, c' s a = c s a) : t.Charges c' :=
  fun s a ha => (h s a ha).trans (hc s a).symm

/-- Where the prices stay, a goal that charged the penalty still does. -/
theorem Charges.balanced (h : t'.Charges fun s a => (t.penalty a).get s)
    (hprice : ∀ v, t'.price v = t.price v) : t'.Balanced :=
  h.congr fun s a => by rw [penalty_congr hprice]

/-- Counting leaves what is charged. -/
theorem Charges.count (h : t.Charges c) (f : Counters → Counters) : (t.count f).Charges c :=
  h.of_rows (goal_count t f) (rows_count t f)

/-- An exchange rewrites the goal. -/
theorem Charges.redefine (h : t.Charges c) (hl : t.Linked none) (hn : t.Normal) (hr : r ∈ t.rows)
    (hv : v ∈ r.expr.vars) : (t.redefine r v).Charges c := by
  intro s a ha
  have hsat := (hl.satisfies_redefine hn hr hv).mp ha
  exact (hl.evalAt_redefine hn hr hv .goal hsat s).trans (h s a hsat)

/-- Minimisation of any objective rewrites the goal. -/
theorem Charges.minimise (h : t.Charges c) (hl : t.Linked none) (hn : t.Normal) (o : Objective) :
    (t.minimise o).2.Charges c := by
  refine (minimise_induction (p := fun t' => t'.Linked none ∧ t'.Normal ∧ t'.Charges c) ?_ ?_
    ⟨hl, hn, h⟩).2.2
  · rintro t' f ⟨hl, hn, h⟩
    exact ⟨hl.count f, hn.of_rows (rows_count t' f), h.count f⟩
  · rintro t' v d r ⟨hl, hn, h⟩ - hleave hrow
    obtain ⟨hr, hv⟩ := hl.mem_of_leaving? hleave hrow
    exact ⟨hl.redefine hr hv, hl.normal_redefine hn hr, h.redefine hl hn hr hv⟩

/-- A draft that is solved for a variable is substituted in the goal. -/
theorem Charges.solved {d : Draft Rat} (h : t.Charges c) (hd : t.Placeable d)
    (hv : ¬t.IsBasic v) (hcoef : d.expr.coefficient v ≠ 0) : (t.solved d v).Charges c := by
  intro s a ha
  obtain ⟨hsat, hzero⟩ := (hd.satisfies_solved hv hcoef).mp ha
  have hvalue := (LinExpr.eval_solveFor_iff hd.nodup hcoef a).mpr hzero
  have hgoal : (t.solved d v).goal = t.goal.substitute v (d.expr.solveFor v) := by
    rw [Tableau.solved, goal_attach]
    rfl
  rw [hgoal, (hd.linked.goal _ List.mem_cons_self).tidy.evalAt_substitute, ← hvalue,
    update_eq_self]
  exact h s a hsat

/-- The row of a variable that the cost ignores may go. -/
theorem Charges.dropRow (h : t.Charges c) (hl : t.Linked none) (hr : r ∈ t.rows)
    (hc : Ignores c r.basic) : (t.dropRow r).Charges c := by
  intro s a ha
  obtain ⟨x, hx⟩ := (hl.satisfies_dropRow_iff hr).mp ha
  have hbasic : r.basic ∉ t.goal.vars := fun hmem =>
    ((hl.tidy_objective .goal).2 _ hmem).2 ⟨r, hr, rfl⟩
  have hkeep : t.goal.evalAt s (update a r.basic x) = t.goal.evalAt s a :=
    Goal.evalAt_congr (fun w hw => update_of_ne (ne_of_mem_of_not_mem hw hbasic) x a) s
  rw [← hc s a x, ← h s _ hx, hkeep]
  rfl

/-- The equation of a variable that the cost ignores may be taken out through a row. Replacing the
variable moves it to a value at which all rows hold. -/
theorem Charges.eliminated (h : t.Charges c) (hl : t.Linked none) (hr : r ∈ t.rows)
    (hcoef : r.expr.coefficient v ≠ 0) (hc : Ignores c v) : (t.eliminated r v).Charges c := by
  intro s a ha
  have hgoal : (t.eliminated r v).goal = t.goal.substitute v (redefined r v).expr := rfl
  obtain ⟨x, hx⟩ := (hl.satisfies_eliminated hr hcoef).mp ha
  have hv : v ∈ r.expr.vars := by
    by_contra hnot
    exact hcoef (LinExpr.coefficient_of_notMem hnot)
  have hrow := hl.row r hr
  have hown : r.basic ∉ r.expr.vars := fun hmem => (hrow.term _ hmem).2 ⟨r, hr, rfl⟩
  have hexpr : v ∉ (redefined r v).expr.vars := fun hmem => (hl.term_redefined hr hmem).1 rfl
  have hvalue : x = (redefined r v).expr.eval a := by
    have hiff := LinExpr.eval_exchange_iff hrow.nodup hown (ne_of_mem_of_not_mem hv hown) hcoef
      (update a v x)
    rw [update_self] at hiff
    exact (hiff.mpr (hx r hr)).trans (LinExpr.eval_update_of_notMem hexpr a x)
  rw [hgoal, (hl.goal _ List.mem_cons_self).tidy.evalAt_substitute, ← hvalue, h s _ hx, hc]

/-- The equation of a variable that the cost ignores may be taken out. -/
theorem Charges.removeEquation (h : t.Charges c) (hl : t.Linked none) (hc : Ignores c v) :
    (t.removeEquation v).Charges c := by
  refine removeEquation_cases (p := fun t' => t'.Charges c) (fun r hdef => ?_)
    (fun r _ hrow => ?_) fun _ _ => h
  · obtain ⟨hr, rfl⟩ := hl.definition?_eq_some_iff.mp hdef
    exact h.dropRow hl hr hc
  · obtain ⟨hr, -, hnegligible⟩ := hl.mem_marked.mp (hl.markerRow?_cases hrow).1
    exact h.eliminated hl hr (fun hz => hnegligible (negligible_iff.mpr hz)) hc

/-- A variable that is forgotten costs nothing. -/
theorem Charges.forget (h : t.Charges c) (hl : t.Linked none) (hv : ¬t.IsBasic v) :
    (t.forget v).Charges fun s a => c s (update a v 0) := by
  intro s a ha
  have hvalue := (hl.goal _ List.mem_cons_self).tidy.evalAt_update s a v 0
  rw [mul_zero, add_zero] at hvalue
  exact hvalue.symm.trans (h s _ ((hl.satisfies_forget hv).mp ha))

/-- A variable that is not basic costs nothing once it is discarded. -/
theorem Charges.discard_of_not_isBasic (h : t.Charges c) (hl : t.Linked none)
    (hv : ¬t.IsBasic v) : (t.discard v).Charges fun s a => c s (update a v 0) := by
  have hundefined : t.undefine v = t := by
    rw [Tableau.undefine, hl.definition?_eq_none_iff.mpr hv]
  have hforget := h.forget hl hv
  rw [← hundefined, ← purge_eq] at hforget
  exact hforget.of_rows rfl rfl

/-- A variable that the cost ignores may be discarded. -/
theorem Charges.discard (h : t.Charges c) (hl : t.Linked none) (hc : Ignores c v) :
    (t.discard v).Charges c := by
  obtain ⟨hundefined, -, hbasic⟩ := hl.undefine v
  have hleft : (t.undefine v).Charges c := by
    rw [Tableau.undefine]
    cases hdef : t.definition? v with
    | none => exact h
    | some r =>
        obtain ⟨hr, hb⟩ := hl.definition?_eq_some_iff.mp hdef
        exact h.dropRow hl hr (hb ▸ hc)
  have hpurge : (t.purge v).Charges c :=
    (hleft.forget hundefined hbasic).congr fun s a => (hc s a 0).symm
  exact hpurge.of_rows rfl rfl

/-- Discarding variables that the cost ignores leaves what is charged. -/
theorem Charges.foldl_discard (h : t.Charges c) (hl : t.Linked none) {vs : List VarId}
    (hc : ∀ v ∈ vs, Ignores c v) : (vs.foldl Tableau.discard t).Charges c := by
  induction vs generalizing t with
  | nil => exact h
  | cons v vs ih =>
      exact ih (h.discard hl (hc v List.mem_cons_self)) (hl.discard v)
        fun w hw => hc w (List.mem_cons_of_mem v hw)

/-- The variable by which a draft was measured leaves no charge. -/
theorem Charges.settled {m : Tableau Rat Rat} {d : Draft Rat} {art : VarId} (h : m.Charges c)
    (hm : Measures t d art m) (hc : Ignores c art) (reached : Bool) :
    (m.settled d art reached).Charges c := by
  have hclear := hm.linked.withoutPhaseOne
  have hcharges : ({ m with phaseOne := none } : Tableau Rat Rat).Charges c := h.of_rows rfl rfl
  have hretired := hclear.retire art d.constraint.tag.marker reached
  refine Charges.discard ?_ hretired.1 hc
  rw [retire]
  split
  · exact hcharges
  · rename_i r hdef
    obtain ⟨hr, hb⟩ := hclear.definition?_eq_some_iff.mp hdef
    split
    · exact hcharges.dropRow hclear hr (hb ▸ hc)
    · rename_i v hnext
      obtain ⟨-, hv⟩ := reached_and_mem_of_successor? hnext
      exact hcharges.redefine hclear hm.normal hr hv

/-- The penalty of an error variable is taken out of the goal. -/
theorem Charges.unpenalise (h : t.Charges c) (hl : t.Linked none) (v : VarId) :
    (t.unpenalise v).Charges fun s a => c s a - (t.price v).get s * a v := by
  have htidy := (hl.goal _ List.mem_cons_self).tidy
  rw [Tableau.unpenalise, price]
  cases hx : t.vars.get? v with
  | none => exact h.congr fun s a => by simp
  | some x =>
      rw [Option.map_some, Option.getD_some, Variable.price]
      by_cases hk : x.kind = .error
      · simp only [hk, if_true]
        cases hdef : t.definition? v with
        | none =>
            intro s a ha
            dsimp only
            rw [htidy.evalAt_addTerm, h s a ha]
            ring
        | some r =>
            intro s a ha
            obtain ⟨hr, rfl⟩ := hl.definition?_eq_some_iff.mp hdef
            have hholds : a r.basic = r.expr.eval a := ha r hr
            dsimp only
            rw [htidy.evalAt_addScaled, h s a ha, hholds]
            ring
      · simp only [hk, if_false]
        exact h.congr fun s a => by simp

/-- Once the penalties of variables are taken back they are charged for no more. -/
theorem Charges.foldl_unpenalise (h : t.Charges c) (hl : t.Linked none) (vs : List VarId) :
    (vs.foldl Tableau.unpenalise t).Charges fun s a =>
      c s a - (vs.map fun v => (t.price v).get s * a v).sum := by
  induction vs generalizing t c with
  | nil => exact h.congr fun s a => by simp
  | cons v vs ih =>
      have hprice : ∀ w, (t.unpenalise v).price w = t.price w := by
        obtain ⟨g, hg⟩ := unpenalise_eq t v
        rw [hg]
        exact fun _ => rfl
      have hrest := ih (h.unpenalise hl v) (hl.unpenalise v)
      refine hrest.congr fun s a => ?_
      simp only [hprice, List.map_cons, List.sum_cons]
      ring

end Charges

/-! ### New variables -/

/-- A new variable has no price yet. -/
theorem price_addVariable (t : Tableau Rat Rat) (kind : Kind) (stem : Option String) (w : VarId) :
    (t.addVariable kind stem).2.price w = t.price w := by
  obtain ⟨name, hget⟩ := t.get?_addVariable kind stem
  rw [price, price, hget]
  by_cases hw : w = (t.addVariable kind stem).1
  · rw [if_pos hw, hw, t.get?_addVariable_fst kind stem, Option.map_some, Option.getD_some,
      Variable.price]
    exact ite_self _
  · rw [if_neg hw]

/-- A new variable keeps a tableau balanced: it has no price. -/
theorem Balanced.addVariable (h : t.Balanced) (kind : Kind) (stem : Option String) :
    (t.addVariable kind stem).2.Balanced :=
  Charges.balanced (h.of_rows (goal_addVariable t kind stem) (rows_addVariable t kind stem))
    (price_addVariable t kind stem)

/-- The price of a new error variable is that of its tier. -/
theorem price_addError (t : Tableau Rat Rat) (p : Strength) (w : VarId) :
    (t.addError p).2.price w = if w = (t.addError p).1 then TierVector.unit p else t.price w := by
  have hmodify := VariablePool.get?_modify (t.addVariable .error none).2.vars
    (t.addVariable .error none).1 (fun x => { x with penalty := some p }) w
  have hget : (t.addError p).2.vars.get? w = _ := hmodify
  obtain ⟨name, hnew⟩ := t.get?_addVariable .error none
  have hfst : (t.addError p).1 = (t.addVariable .error none).1 := rfl
  by_cases hw : w = (t.addError p).1
  · rw [if_pos hw]
    rw [if_pos (hw.trans hfst), hnew, if_pos (hw.trans hfst), Option.map_some] at hget
    rw [price_of_get? hget]
    rfl
  · rw [if_neg hw]
    rw [hfst] at hw
    rw [if_neg hw, hnew, if_neg hw] at hget
    rw [price, price, hget]

/-- The goal pays for a new error variable. -/
theorem Balanced.addError (h : t.Balanced) (hl : t.Linked out) (p : Strength) :
    (t.addError p).2.Balanced := by
  have hgoal : (t.addError p).2.goal = t.goal.addTerm (t.addError p).1 (TierVector.unit p) 1 :=
    congrArg (fun g : Goal Rat => g.addTerm _ _ _) (goal_addVariable t .error none)
  have hprice := t.price_addError p
  have hdead : t.price (t.addError p).1 = TierVector.zero := by
    have hget : t.vars.get? (t.addError p).1 = none := get?_addVariable_fst t .error none
    rw [price, hget]
    rfl
  intro s a ha
  have hsat : t.Satisfies a := (satisfies_congr (rows_addVariable t .error none)).mp ha
  have hchange := get_penalty_of_ne (t := t) (a := a) (b := a)
    (fun w hw => (hprice w).trans (if_neg hw)) (fun _ _ => rfl) s
  rw [hprice, if_pos rfl, hdead, TierVector.get_zero] at hchange
  rw [hgoal, (hl.goal _ List.mem_cons_self).tidy.evalAt_addTerm, h.evalAt hsat]
  linear_combination -hchange

/-- A part that is made keeps a tableau balanced: the goal pays for an error variable. -/
theorem Balanced.makePart (h : t.Balanced) (hl : t.Linked out) (p : Part Rat) :
    (t.makePart p).2.Balanced := by
  cases p with
  | slack c => exact h.addVariable .slack none
  | marker c => exact h.addVariable .constant none
  | error p c => exact h.addError hl p

/-- Parts that are made one after another keep a tableau balanced. -/
theorem Balanced.joinParts (h : t.Balanced) (hl : t.Linked out) (e : LinExpr Rat)
    (ps : List (Part Rat)) : (t.joinParts e ps).2.2.Balanced := by
  induction ps generalizing t e with
  | nil => exact h
  | cons p ps ih =>
      rw [joinParts_cons]
      exact ih (h.makePart hl p) (hl.makePart p) _

/-! ### Insertions -/

section Insert

variable {request : Request Rat} {relation : Relation}

/-- Making a draft keeps a tableau balanced. -/
theorem Balanced.draft (h : t.Balanced) (hl : t.Linked none) (request : Request Rat)
    (relation : Relation) : (t.draft request relation).2.Balanced := by
  obtain ⟨tag, hdraft, -⟩ := t.draft_eq request relation
  rw [hdraft]
  have hacquire : t.acquireRow.2.Balanced :=
    Charges.balanced (h.of_rows (goal_acquireRow t) (rows_acquireRow t))
      (price_of_vars_eq (vars_acquireRow t))
  exact hacquire.joinParts hl.acquireRow _ _

/-- Placing a draft keeps a tableau balanced. The artificial variable of a trial is not one of the
tableau's, so the penalty ignores it. -/
theorem Balanced.place {d : Draft Rat} (h : t.Balanced) (hd : t.Admissible d) :
    (t.place d).2.Balanced := by
  refine Charges.balanced (t := t) ?_ (Linked.place hd.placeable).2.price_eq
  refine place_cases
    (p := fun result => result.2.Charges fun s a => (t.penalty a).get s) ?_ ?_ ?_ ?_ ?_ ?_
  · exact fun _ _ f hcharges => hcharges.count f
  · intro v hv
    exact Charges.solved h hd.placeable (hd.placeable.subject hv).2
      (hd.coefficient_subject_ne_zero hv)
  · intro _ _ _ _
    exact Charges.of_satisfies h (goal_attach _ _) fun a ha => (satisfies_attach.mp ha).1
  · exact fun _ => Charges.of_rows h rfl rfl
  · exact fun _ _ _ => Charges.of_rows h rfl rfl
  · intro f _
    have hdf := hd.count f
    have hm := hdf.measurable.measures
    have hmeasured : ((t.count f).measured d).Charges fun s a => (t.penalty a).get s :=
      (Charges.count h f).of_satisfies
        ((goal_attach _ _).trans (goal_addVariable (t.count f) .slack none))
        fun a ha => (satisfies_measured.mp ha).1
    have hprice : t.price (t.count f).artificial = TierVector.zero := by
      refine price_of_not_isLive fun hlive => ?_
      have hdead : (t.count f).vars.get? (t.count f).artificial = none :=
        get?_addVariable_fst (t.count f) .slack none
      rw [vars_count] at hdead
      rw [VariablePool.isLive_iff, hdead] at hlive
      simp at hlive
    exact Charges.settled (hmeasured.minimise hm.linked hm.normal .phaseOne)
      (hm.minimise .phaseOne) (ignores_penalty hprice) _

/-- Flags and values of variables keep a tableau balanced. -/
theorem Balanced.modifyVar (h : t.Balanced) (v : VarId) {f : Variable Rat → Variable Rat}
    (hf : ∀ x, ((f x).price : TierVector Rat) = x.price) : (t.modifyVar v f).Balanced :=
  Charges.balanced (h.of_rows rfl rfl) (price_modifyVar t v hf)

/-- Changes of variables that are not of their prices keep a tableau balanced. -/
theorem Balanced.foldl_modifyVar (h : t.Balanced) {f : Variable Rat → Variable Rat}
    (hf : ∀ x, ((f x).price : TierVector Rat) = x.price) (vs : List VarId) :
    (vs.foldl (fun t v => t.modifyVar v f) t).Balanced ∧
      ∀ w, (vs.foldl (fun t v => t.modifyVar v f) t).price w = t.price w := by
  induction vs generalizing t with
  | nil => exact ⟨h, fun _ => rfl⟩
  | cons v vs ih =>
      obtain ⟨hbalanced, hprice⟩ := ih (h.modifyVar v hf)
      exact ⟨hbalanced, fun w => (hprice w).trans (price_modifyVar t v hf w)⟩

/-- Entering a constraint keeps a tableau balanced. -/
theorem Balanced.register (h : t.Balanced) (c : Constraint Rat) : (t.register c).2.Balanced := by
  obtain ⟨hfold, -⟩ := h.foldl_modifyVar (f := Variable.retainFold) (fun _ => rfl) c.tag.folded
  rw [Tableau.register]
  dsimp only
  exact Charges.balanced (Charges.of_rows hfold (goal_count _ _) (rows_count _ _))
    (price_of_vars_eq (vars_count _ _))

/-- The price of a variable that was discarded is zero. -/
theorem Linked.price_discard (h : t.Linked none) (v w : VarId) :
    (t.discard v).price w = if w = v then TierVector.zero else t.price w := by
  have hget : (t.discard v).vars.get? w = if w = v then none else (t.purge v).vars.get? w :=
    VariablePool.get?_release _ v w
  rw [← (h.sameVars_purge v).price_eq, price, hget]
  by_cases hw : w = v
  · rw [if_pos hw, if_pos hw]
    rfl
  · rw [if_neg hw, if_neg hw]
    rfl

/-- The penalty without a discarded variable is what that adds to it less. -/
theorem Linked.get_penalty_discard (h : t.Linked none) (v : VarId) (a : Assignment)
    (s : Strength) :
    ((t.discard v).penalty a).get s = (t.penalty a).get s - (t.price v).get s * a v := by
  have hchange := get_penalty_of_ne (t := t) (a := a) (b := a)
    (fun w hw => (h.price_discard v w).trans (if_neg hw)) (fun _ _ => rfl) s
  rw [h.price_discard, if_pos rfl, TierVector.get_zero] at hchange
  rw [hchange]
  ring

/-- A variable that is in no row may be discarded. -/
theorem Balanced.discard (h : t.Balanced) (hl : t.Linked none) (hv : ¬t.IsBasic v) :
    (t.discard v).Balanced :=
  (h.discard_of_not_isBasic hl hv).congr fun s a => by
    rw [hl.get_penalty_discard, get_penalty_update]
    ring

/-- Discarding variables that solutions do not depend on keeps a tableau balanced. -/
theorem Balanced.foldl_discard (h : t.Balanced) (hl : t.Linked none) (hn : t.Normal)
    {vs : List VarId} (hfree : ∀ v ∈ vs, t.FreeOf v) : (vs.foldl Tableau.discard t).Balanced := by
  induction vs generalizing t with
  | nil => exact h
  | cons v vs ih =>
      have hv := hfree v List.mem_cons_self
      have hsat : ∀ a, (t.discard v).Satisfies a ↔ t.Satisfies a :=
        fun a => hv.satisfies_discard hl hn
      refine ih (h.discard hl (hv.absent hl hn).1) (hl.discard v) (hl.normal_discard hn v)
        fun w hw b x hb => ?_
      exact (hsat _).mpr (hfree w (List.mem_cons_of_mem v hw) b x ((hsat b).mp hb))

/-- An **insertion** keeps a tableau balanced, accepted or not. -/
theorem Balanced.insert (h : t.Balanced) (hl : t.Linked none) (hn : t.Normal)
    (request : Request Rat) (relation : Relation) : (t.insert request relation).2.Balanced := by
  have hplace : (∀ v ∈ request.expr.vars, t.vars.isLive v) →
      (t.placed request relation).2.Balanced := fun hlive =>
    (h.draft hl request relation).place (hl.admissible hn hlive relation)
  refine insert_cases (p := fun result => result.2.Balanced) ?_ ?_ ?_ ?_
  · exact fun _ _ _ => h
  · exact fun _ hlive _ => hplace hlive
  · exact fun hlive _ => (hplace hlive).register _
  · intro _ f hlive hplaced
    obtain ⟨hlinked, -⟩ := Linked.place ((hl.draft request relation).placeable hl)
    obtain ⟨hnormal, -⟩ := hl.satisfies_placed hn hlive relation
    have hne : (t.placed request relation).1 ≠ .ok true := by
      rw [hplaced]
      simp
    have hfree := hl.freeOf_placed hn hlive hne
    exact Charges.balanced (Charges.count ((hplace hlive).foldl_discard hlinked hnormal hfree) f)
      (price_of_vars_eq (vars_count _ _))

end Insert

/-! ### Removals -/

/-- The penalty without variables that were discarded. -/
theorem Linked.get_penalty_foldl_discard (h : t.Linked none) {vs : List VarId} (hvs : vs.Nodup)
    (a : Assignment) (s : Strength) :
    ((vs.foldl Tableau.discard t).penalty a).get s =
      (t.penalty a).get s - (vs.map fun v => (t.price v).get s * a v).sum := by
  induction vs generalizing t with
  | nil => simp
  | cons v vs ih =>
      obtain ⟨hv, hvs⟩ := List.nodup_cons.mp hvs
      have hprice : (vs.map fun w => ((t.discard v).price w).get s * a w) =
          vs.map fun w => (t.price w).get s * a w := by
        refine List.map_congr_left fun w hw => ?_
        rw [h.price_discard, if_neg (ne_of_mem_of_not_mem hw hv)]
      rw [List.foldl_cons, ih (h.discard v) hvs, hprice, h.get_penalty_discard, List.map_cons,
        List.sum_cons]
      ring

/-- Discarded variables have no price. -/
theorem Linked.price_foldl_discard (h : t.Linked none) {vs : List VarId} (hv : v ∈ vs) :
    (vs.foldl Tableau.discard t).price v = TierVector.zero := by
  have hstays : ∀ (ws : List VarId) (t : Tableau Rat Rat), t.Linked none →
      t.price v = TierVector.zero → (ws.foldl Tableau.discard t).price v = TierVector.zero := by
    intro ws
    induction ws with
    | nil => exact fun _ _ hzero => hzero
    | cons w ws ih =>
        intro t h hzero
        refine ih (t.discard w) (h.discard w) ?_
        rw [h.price_discard, hzero, ite_self]
  induction vs generalizing t with
  | nil => exact absurd hv List.not_mem_nil
  | cons w vs ih =>
      rcases List.mem_cons.mp hv with rfl | hv
      · exact hstays vs _ (h.discard v) (by rw [h.price_discard, if_pos rfl])
      · exact ih (h.discard w) hv

/-- The goal of a tableau in which a constraint is no longer listed does not charge for the
variables of the constraint. -/
theorem Balanced.unlisted (h : t.Balanced) (hl : t.Linked none) (id : ConstraintId) (tag : Tag) :
    (t.unlisted id tag).Charges (fun s a =>
        (t.penalty a).get s - (tag.vars.map fun v => (t.price v).get s * a v).sum) ∧
      ∀ w, (t.unlisted id tag).price w = t.price w := by
  have herased : ({ t with constraints := t.constraints.erase id } : Tableau Rat Rat).Balanced := h
  have hlink : ({ t with constraints := t.constraints.erase id } : Tableau Rat Rat).Linked none :=
    hl.of_eq rfl rfl rfl rfl
  obtain ⟨hfold, hprice⟩ :=
    herased.foldl_modifyVar (f := Variable.releaseFold) (fun _ => rfl) tag.folded
  have hlink := hlink.foldl_modifyVar (f := Variable.releaseFold) (fun _ => rfl) tag.folded
  refine ⟨(Charges.foldl_unpenalise hfold hlink tag.vars).congr fun s a => ?_, fun w => ?_⟩
  · rw [penalty_congr hprice]
    simp only [hprice]
    rfl
  · obtain ⟨g, hg⟩ := foldl_unpenalise tag.vars (tag.folded.foldl
      (fun t v => t.modifyVar v Variable.releaseFold)
      { t with constraints := t.constraints.erase id })
    rw [Tableau.unlisted, hg]
    exact hprice w

/-- A **removal** keeps a tableau balanced. -/
theorem Balanced.withdraw (h : t.Balanced) (hl : t.Linked none) (id : ConstraintId) {tag : Tag}
    (htag : tag.vars.Nodup) : (t.withdraw id tag).Balanced := by
  have hunlisted := hl.unlisted id tag
  obtain ⟨hremoved, hsame⟩ := hunlisted.removeEquation tag.marker
  obtain ⟨hcharges, hprice⟩ := h.unlisted hl id tag
  have hprices : ∀ w, ((t.unlisted id tag).removeEquation tag.marker).price w = t.price w :=
    fun w => (hsame.price_eq w).trans (hprice w)
  have hpaid : (t.unlisted id tag).Charges fun s a => ((t.withdraw id tag).penalty a).get s := by
    refine hcharges.congr fun s a => ?_
    rw [withdraw_eq, hremoved.get_penalty_foldl_discard htag, penalty_congr hprices]
    simp only [hprices]
  have hignores : ∀ v ∈ tag.vars, Ignores (fun s a => ((t.withdraw id tag).penalty a).get s) v :=
    fun v hv => ignores_penalty (hremoved.price_foldl_discard hv)
  exact (hpaid.removeEquation hunlisted (hignores _ List.mem_cons_self)).foldl_discard hremoved
    hignores

/-! ### The goal in terms of the rows -/

/-- The goal at given values of the variables that are not basic. -/
theorem Balanced.evalAt_goal (h : t.Balanced) (hl : t.Linked none) (b : Assignment)
    (s : Strength) : t.goal.evalAt s b = (t.penalty b).get s +
      (t.rows.map fun r => (t.price r.basic).get s * (r.expr.eval b - b r.basic)).sum := by
  have hgoal : t.goal.evalAt s (t.extend b) = t.goal.evalAt s b :=
    Goal.evalAt_congr (fun w hw => hl.extend_of_not_isBasic
      ((hl.tidy_objective .goal).2 w hw).2 b) s
  rw [← hgoal, h.evalAt (hl.satisfies_extend b), hl.get_penalty_extend]

/-- The constant of the goal is the penalty of the row constants. -/
theorem Balanced.get_constant (h : t.Balanced) (hl : t.Linked none) (s : Strength) :
    t.goal.constant.get s =
      (t.rows.map fun r => (t.price r.basic).get s * r.expr.constant).sum := by
  rw [← Goal.evalAt_zero, h.evalAt_goal hl, penalty_zero, zero_add]
  simp only [LinExpr.eval_zero, sub_zero]

/-- The vector of a variable in the goal is its price and what it adds to the priced rows. -/
theorem Balanced.get_coefficient (h : t.Balanced) (hl : t.Linked none) (hv : ¬t.IsBasic v)
    (s : Strength) : (t.goal.coefficient v).get s = (t.price v).get s +
      (t.rows.map fun r => (t.price r.basic).get s * r.expr.coefficient v).sum := by
  have hrows : (t.rows.map fun r => (t.price r.basic).get s *
        (r.expr.eval (update (fun _ => 0) v 1) - update (fun _ => (0 : Rat)) v 1 r.basic)).sum =
      (t.rows.map fun r => (t.price r.basic).get s * r.expr.constant).sum +
        (t.rows.map fun r => (t.price r.basic).get s * r.expr.coefficient v).sum := by
    rw [← List.sum_map_add]
    refine congrArg List.sum (List.map_congr_left fun r hr => ?_)
    rw [update_of_ne fun hb => hv ⟨r, hr, hb⟩, LinExpr.coefficient_eq_eval (hl.row r hr).nodup]
    ring
  rw [(hl.goal _ List.mem_cons_self).tidy.get_coefficient, h.evalAt_goal hl, hrows,
    h.get_constant hl, get_penalty_update, penalty_zero]
  ring

end Tableau

/-! ### Reachable solvers -/

namespace Tableau

/-- What a reachable tableau is like: regular and balanced. -/
theorem closed_balanced (named : VarId → Prop) :
    Closed named fun t : Tableau Rat Rat => t.Regular ∧ t.Balanced := by
  have hregular := closed_regular named
  refine ⟨fun t request relation hnamed h => ⟨hregular.insert t request relation hnamed h.1, ?_⟩,
    fun t id h => ⟨hregular.remove t id h.1, ?_⟩, fun t v x h => ⟨hregular.pin t v x h.1, ?_⟩,
    fun t v h => ⟨hregular.unpin t v h.1, ?_⟩, fun t f h => ⟨hregular.count t f h.1, ?_⟩⟩
  · exact h.2.insert h.1.wellFormed.linked h.1.normal request relation
  · exact remove_cases (p := fun result => result.2.Balanced) (fun _ => h.2) fun c hc =>
      h.2.withdraw h.1.wellFormed.linked id (h.1.wellFormed.owned.nodup id c hc)
  · exact h.2.modifyVar v (f := (·.pin x)) fun _ => rfl
  · exact h.2.modifyVar v (f := Variable.unpin) fun _ => rfl
  · exact Charges.balanced (Charges.count h.2 f) (price_of_vars_eq (vars_count t f))

/-- A tableau without rows and without a goal is balanced if no variable is live. -/
theorem Balanced.of_nothing {t : Tableau Rat Rat} (hgoal : t.goal = Goal.zero)
    (hvars : ∀ v, t.vars.get? v = none) : t.Balanced := by
  intro s a _
  have hprice : ∀ v, t.price v = TierVector.zero := fun v => by
    rw [price, hvars]
    rfl
  have hpenalty : (t.penalty a).get s = 0 := by
    rw [penalty, TierVector.get_ofFn]
    refine Finset.sum_eq_zero fun i _ => ?_
    rw [hprice, TierVector.get_zero, zero_mul]
  have hzero : (Goal.zero : Goal Rat).evalAt s a = 0 := by
    simp [Goal.evalAt, Goal.zero]
  rw [hgoal]
  exact hzero.trans hpenalty.symm

/-- Settling values keeps a tableau balanced. -/
theorem Balanced.settle {t : Tableau Rat Rat} (h : t.Balanced) : t.settle.Balanced := by
  refine Charges.balanced (h.of_rows rfl rfl) fun v => ?_
  rw [price, price, map_settle t v fun _ _ => rfl]

end Tableau

namespace Solver

variable {s : Solver Rat Rat}

/-- The goal of every reachable solver charges the penalty. -/
theorem Reachable.balanced (h : s.Reachable) : s.tableau.Balanced := by
  refine (h.of_closed (p := fun t => t.Regular ∧ t.Balanced)
    (Tableau.closed_balanced fun _ => True) ?_ ?_ ?_ ?_ ?_ ?_).2
  · exact fun settings => ⟨regular_empty settings, Tableau.Balanced.of_nothing rfl fun _ => rfl⟩
  · exact fun t kind stem ht => ⟨ht.1.addVariable kind stem, ht.2.addVariable kind stem⟩
  · intro t ht
    have hlinked := ht.1.wellFormed.linked
    exact ⟨ht.1.minimise .goal, Tableau.Charges.balanced (ht.2.minimise hlinked ht.1.normal .goal)
      (hlinked.sameVars_minimise .goal).price_eq⟩
  · exact fun t ht => ⟨ht.1.settle, ht.2.settle⟩
  · exact fun t _ => ⟨regular_reset,
      Tableau.Balanced.of_nothing rfl (VariablePool.get?_reset t.vars)⟩
  · exact fun t ht => ⟨ht.1.resetCounters, Tableau.Charges.of_rows ht.2 rfl rfl⟩

/-- **The goal is the penalty.** In every reachable solver the goal has in all solutions the value
of the live error variables at their prices, and in terms of the rows: its constant is what the
constants of the priced rows come to, a variable that is not basic has its own price and what it
adds to the priced rows for its vector, and a basic variable is not in the goal. -/
theorem Reachable.goal_eq_penalties (h : s.Reachable) (tier : Strength) :
    (∀ a, s.tableau.Satisfies a →
      s.tableau.goal.evalAt tier a = (s.tableau.penalty a).get tier) ∧
    s.tableau.goal.constant.get tier =
      (s.tableau.rows.map fun r => (s.tableau.price r.basic).get tier * r.expr.constant).sum ∧
    (∀ v, ¬s.tableau.IsBasic v → (s.tableau.goal.coefficient v).get tier =
      (s.tableau.price v).get tier + (s.tableau.rows.map fun r =>
        (s.tableau.price r.basic).get tier * r.expr.coefficient v).sum) ∧
    ∀ v, s.tableau.IsBasic v → v ∉ s.tableau.goal.vars := by
  have hlinked := h.regular.wellFormed.linked
  have hbalanced := h.balanced
  refine ⟨fun a ha => hbalanced.evalAt ha tier, hbalanced.get_constant hlinked tier,
    fun v hv => hbalanced.get_coefficient hlinked hv tier, fun v hv hmem => ?_⟩
  exact ((hlinked.tidy_objective .goal).2 v hmem).2 hv

/-- A solver in which one of two positions asked of a variable was taken back, after an optimisation
and a bound that was refused for being below an earlier one. -/
def revised : Solver Rat Rat :=
  (empty {}).run
    [.declare .external "x", .arrange (.value ⟨0⟩ 2) .low, .arrange (.value ⟨0⟩ 5) .medium,
      .add (pinRequest ⟨0⟩ (3 : Rat)) .ge, .optimize, .add (pinRequest ⟨0⟩ (1 : Rat)) .le,
      .remove ⟨1⟩]

/-- What the refusal left of the trial, and the removal of what was exchanged, do not disturb the
goal: it pays for the distance that is left at the lower tier, through the row of an error variable,
and has the vector of the other one. -/
theorem goal_eq_penalties_of_revised :
    let t := revised.tableau
    t.counters.pivots = 3 ∧ t.counters.infeasible = 1 ∧ t.constraints.length = 2 ∧
      (t.rows.map fun r => (t.price r.basic).get .low * r.expr.constant).sum = 1 ∧
      (t.price ⟨2⟩).get .low + (t.rows.map fun r =>
        (t.price r.basic).get .low * r.expr.coefficient ⟨2⟩).sum = 2 ∧
      (∀ a, t.Satisfies a → t.goal.evalAt .low a = (t.penalty a).get .low) ∧
      ∀ v, t.IsBasic v → v ∉ t.goal.vars := by
  intro t
  have hreachable : revised.Reachable := ⟨{}, _, rfl⟩
  obtain ⟨hpenalty, hconstant, hcoefficient, hbasic⟩ :=
    Reachable.goal_eq_penalties hreachable .low
  have hnot : ¬revised.tableau.IsBasic ⟨2⟩ :=
    hreachable.regular.wellFormed.linked.definition?_eq_none_iff.mp
      (Option.not_isSome_iff_eq_none.mp (by decide +kernel))
  exact ⟨by decide +kernel, by decide +kernel, by decide +kernel,
    hconstant.symm.trans (by decide +kernel),
    (hcoefficient ⟨2⟩ hnot).symm.trans (by decide +kernel), hpenalty, hbasic⟩

end Solver

end LexSimplex
