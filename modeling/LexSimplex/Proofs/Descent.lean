import LexSimplex.Proofs.Lexicographic
import LexSimplex.Proofs.Penalties

/-!
# Descents

A minimisation moves from one basic-feasible tableau to the next. What makes it a **descent** is
that its objective is never negative in a solution that respects the kinds: the goal because it is a
penalty, the objective of phase one because it is the value of a slack. From this follow the three
facts that distinguish this simplex method from one on restricted variables alone. An external
variable may be moved by any distance in either direction, so none is left in the objective. Hence
every variable that enters is restricted and grows. And a row stops it, since otherwise it would
take the objective below zero.

## Main definitions

* `Tableau.advance`, `Tableau.exchanges`: the exchanges of a minimisation, one at a time.
* `Tableau.Descending`: what a descent relies on.
* `Tableau.Exchange`: what one exchange of a descent does.

## Main results

* `Tableau.descend_cases`: how a minimisation ends.
* `Tableau.Descending.exists_leaving`: a descent is bounded.
* `Tableau.Descending.exists_exchange`: the next exchange.
* `Tableau.Linked.constant_le_of_entering?_eq_none`: where nothing enters, the constant is least.
-/

namespace LexSimplex

open Function (update update_self update_of_ne update_eq_self)

namespace Tableau

/-! ### Exchanges one at a time -/

section Exchanges

variable {K Q : Type} [Coefficient K] {o : Objective} {t u : Tableau K Q}

/-- One exchange of a minimisation, counted, if a variable enters and a row stops it. -/
def advance (o : Objective) (t : Tableau K Q) : Option (Tableau K Q) :=
  (t.entering? o).bind fun x =>
    let t := t.count fun c => { c with iterations := c.iterations + 1 }
    (t.leaving? x.1 x.2).map fun id => t.pivot id x.1

/-- So many exchanges of a minimisation, if it comes to that. -/
def exchanges (o : Objective) : Nat → Tableau K Q → Option (Tableau K Q)
  | 0, t => some t
  | n + 1, t => (t.advance o).bind (exchanges o n)

/-- A minimisation succeeds where nothing enters, or finds nothing that stops a variable, or makes
as many exchanges as it may. -/
theorem descend_cases (o : Objective) (limit fuel : Nat) (t : Tableau K Q) :
    ((descend o limit fuel t).1 = .ok () ∧ (descend o limit fuel t).2.entering? o = none) ∨
      (∃ v d, (descend o limit fuel t).1 = .error (.unbounded v) ∧
        (descend o limit fuel t).2.entering? o = some (v, d) ∧
        (descend o limit fuel t).2.leaving? v d = none) ∨
      ((descend o limit fuel t).1 = .error (.iterationLimit limit) ∧
        exchanges o fuel t = some (descend o limit fuel t).2) := by
  induction fuel generalizing t with
  | zero =>
      rw [descend]
      cases henter : t.entering? o with
      | none => exact .inl ⟨rfl, henter⟩
      | some x => exact .inr (.inr ⟨rfl, rfl⟩)
  | succ fuel ih =>
      rw [descend, exchanges, advance]
      cases henter : t.entering? o with
      | none => exact .inl ⟨rfl, henter⟩
      | some x =>
          obtain ⟨v, d⟩ := x
          dsimp only
          rw [Option.bind_some, leaving?_count]
          cases hleave : t.leaving? v d with
          | none =>
              refine .inr (.inl ⟨v, d, rfl, ?_, ?_⟩)
              · rw [entering?_count, henter]
              · rw [leaving?_count, hleave]
          | some id => exact ih _

/-- Exchanges may be made in two goes. -/
theorem exchanges_add (o : Objective) (m n : Nat) (t : Tableau K Q) :
    exchanges o (m + n) t = (exchanges o m t).bind (exchanges o n) := by
  induction m generalizing t with
  | zero => rw [Nat.zero_add, exchanges, Option.bind_some]
  | succ m ih =>
      rw [Nat.succ_add, exchanges, exchanges, Option.bind_assoc]
      exact congrArg _ (funext ih)

/-- One more exchange comes last. -/
theorem exchanges_succ (o : Objective) (n : Nat) (t : Tableau K Q) :
    exchanges o (n + 1) t = (exchanges o n t).bind (advance o) := by
  have hone : exchanges o 1 = advance (K := K) (Q := Q) o :=
    funext fun u => Option.bind_fun_some _
  rw [exchanges_add, hone]

/-- The exchanges before the last. -/
theorem exists_exchanges_of_le {m n : Nat} (hmn : m ≤ n) (h : exchanges o n t = some u) :
    ∃ w, exchanges o m t = some w := by
  rw [← Nat.add_sub_cancel' hmn, exchanges_add] at h
  obtain ⟨w, hw, -⟩ := Option.bind_eq_some_iff.mp h
  exact ⟨w, hw⟩

/-- The exchange made: in a linked tableau the row that stops the variable is there. -/
theorem Linked.of_advance (h : t.Linked none) (hu : t.advance o = some u) :
    ∃ v d r f g, t.entering? o = some (v, d) ∧ t.leaving? v d = some r.id ∧
      t.row? r.id = some r ∧ u = ((t.count f).redefine r v).count g := by
  obtain ⟨⟨v, d⟩, henter, hmap⟩ := Option.bind_eq_some_iff.mp hu
  obtain ⟨id, hleave, hpivot⟩ := Option.map_eq_some_iff.mp hmap
  rw [leaving?_count] at hleave
  obtain ⟨r, hr, -, rfl, -⟩ := h.exists_row_of_leaving? hleave
  have hrow := h.row?_eq_some_iff.mpr ⟨hr, rfl⟩
  rw [pivot, row?_count, hrow] at hpivot
  exact ⟨v, d, r, _, _, henter, hleave, hrow, hpivot.symm⟩

end Exchanges

/-! ### What a descent relies on -/

variable {o : Objective} {t u : Tableau Rat Rat} {r : Row Rat} {v w : VarId} {a : Assignment}
  {dir : Direction}

/-- A minimisation of an objective is a **descent** if the tableau is basic-feasible and the
objective is not negative in any solution that respects the kinds. -/
structure Descending (o : Objective) (t : Tableau Rat Rat) : Prop where
  linked : t.Linked none
  normal : t.Normal
  feasible : t.BasicFeasible
  nonneg : ∀ a, t.Satisfies a → t.Respects a → ∀ s, 0 ≤ (t.objective o).evalAt s a

/-- Which assignments respect the kinds depends on these. -/
theorem respects_congr (hkind : ∀ v, u.kind v = t.kind v) : u.Respects a ↔ t.Respects a := by
  simp only [Respects, hkind]

/-- The variables stand at values that respect their kinds. -/
theorem BasicFeasible.respects_rowValue (h : t.BasicFeasible) (hl : t.Linked none) :
    t.Respects t.rowValue :=
  h.admits_rowValue hl

/-- The row constants are the only solution in which all variables that are not basic are zero. -/
theorem Linked.eq_rowValue (h : t.Linked none) (ha : t.Satisfies a)
    (hzero : ∀ v, ¬t.IsBasic v → a v = 0) : a = t.rowValue := by
  funext v
  rw [rowValue]
  cases hdef : t.definition? v with
  | none => exact hzero v (h.definition?_eq_none_iff.mp hdef)
  | some r =>
      obtain ⟨hr, rfl⟩ := h.definition?_eq_some_iff.mp hdef
      have hholds : a r.basic = r.expr.eval a := ha r hr
      have hstand : r.expr.eval a = r.expr.eval fun _ => 0 :=
        LinExpr.eval_congr fun w hw => hzero w ((h.row r hr).term w hw).2
      rw [hholds, hstand, LinExpr.eval_zero]
      rfl

/-- The value of an objective where the variables stand is its constant. -/
theorem Linked.evalAt_rowValue (h : t.Linked none) (o : Objective) (s : Strength) :
    (t.objective o).evalAt s t.rowValue = (t.objective o).constant.get s := by
  rw [← Goal.evalAt_zero]
  exact Goal.evalAt_congr
    (fun w hw => h.rowValue_of_not_isBasic ((h.tidy_objective o).2 w hw).2) s

/-! ### Moving one variable -/

/-- Where one variable that is not basic is moved from zero. -/
theorem Linked.eval_single (h : t.Linked none) (hr : r ∈ t.rows) (v : VarId) (x : Rat) :
    r.expr.eval (update (fun _ => 0) v x) = r.expr.constant + r.expr.coefficient v * x := by
  rw [LinExpr.eval_update (h.row r hr).nodup, LinExpr.eval_zero]
  rfl

/-- The value of an objective where only one variable is not zero. -/
theorem Linked.evalAt_single (h : t.Linked none) (o : Objective) (v : VarId) (x : Rat)
    (s : Strength) : (t.objective o).evalAt s (update (fun _ => 0) v x) =
      (t.objective o).constant.get s + ((t.objective o).coefficient v).get s * x := by
  rw [(h.tidy_objective o).1.evalAt_update, Goal.evalAt_zero]
  rfl

/-- The solution in which one variable that is not basic has another value than zero. -/
def moved (t : Tableau Rat Rat) (v : VarId) (x : Rat) : Assignment :=
  t.extend (update (fun _ => 0) v x)

/-- A basic variable moves by the coefficient in its row. -/
theorem Linked.moved_basic (h : t.Linked none) (hr : r ∈ t.rows) (v : VarId) (x : Rat) :
    t.moved v x r.basic = r.expr.constant + r.expr.coefficient v * x := by
  rw [moved, extend, h.definition?_eq_some_iff.mpr ⟨hr, rfl⟩]
  exact h.eval_single hr v x

/-- The variable itself moves as far as it is moved. -/
theorem Linked.moved_self (h : t.Linked none) (hv : ¬t.IsBasic v) (x : Rat) :
    t.moved v x v = x := by
  rw [moved, h.extend_of_not_isBasic hv, update_self]

/-- The other variables that are not basic stay at zero. -/
theorem Linked.moved_of_ne (h : t.Linked none) (hw : ¬t.IsBasic w) (hwv : w ≠ v) (x : Rat) :
    t.moved v x w = 0 := by
  rw [moved, h.extend_of_not_isBasic hw, update_of_ne hwv]

/-- A variable that is not basic may be moved anywhere within the solutions. -/
theorem Linked.satisfies_moved (h : t.Linked none) (v : VarId) (x : Rat) :
    t.Satisfies (t.moved v x) :=
  h.satisfies_extend _

/-- The objective moves by the vector of the variable. -/
theorem Linked.evalAt_moved (h : t.Linked none) (o : Objective) (v : VarId) (x : Rat)
    (s : Strength) : (t.objective o).evalAt s (t.moved v x) =
      (t.objective o).constant.get s + ((t.objective o).coefficient v).get s * x := by
  rw [← h.evalAt_single]
  exact Goal.evalAt_congr
    (fun w hw => h.extend_of_not_isBasic ((h.tidy_objective o).2 w hw).2 _) s

/-- A variable may be moved to a value at which it and every row are admitted. -/
theorem Linked.respects_moved (h : t.Linked none) (hv : ¬t.IsBasic v) {x : Rat}
    (hown : (t.kind v).Admits x)
    (hrow : ∀ r ∈ t.rows,
      (t.kind r.basic).Admits (r.expr.constant + r.expr.coefficient v * x)) :
    t.Respects (t.moved v x) := by
  intro w
  have hadmits : (t.kind w).Admits (t.moved v x w) := by
    cases hdef : t.definition? w with
    | some r =>
        obtain ⟨hr, rfl⟩ := h.definition?_eq_some_iff.mp hdef
        rw [h.moved_basic hr]
        exact hrow r hr
    | none =>
        have hw := h.definition?_eq_none_iff.mp hdef
        by_cases hwv : w = v
        · rw [hwv, h.moved_self hv]
          exact hown
        · rw [h.moved_of_ne hw hwv]
          exact Kind.admits_zero _
  exact hadmits

/-- A variable that may be moved by any distance in a direction does not lower the objective there
at any tier. Otherwise the objective would be below zero at some distance. -/
theorem Descending.nonneg_of_ray (h : t.Descending o) (v : VarId) (c : Rat)
    (hray : ∀ x, 0 ≤ x → t.Respects (t.moved v (c * x))) (s : Strength) :
    0 ≤ ((t.objective o).coefficient v).get s * c := by
  have hvalue : ∀ x, 0 ≤ x → 0 ≤ (t.objective o).constant.get s +
      ((t.objective o).coefficient v).get s * c * x := by
    intro x hx
    have hnonneg := h.nonneg _ (h.linked.satisfies_moved v _) (hray x hx) s
    rwa [h.linked.evalAt_moved, ← mul_assoc] at hnonneg
  generalize ((t.objective o).coefficient v).get s * c = k at hvalue ⊢
  generalize (t.objective o).constant.get s = b at hvalue
  by_contra hneg
  rw [not_le] at hneg
  have hb := hvalue 0 (le_refl 0)
  rw [mul_zero, add_zero] at hb
  have hfar := hvalue ((b + 1) / -k) (div_nonneg (by linarith) (by linarith))
  rw [div_neg, mul_neg, mul_div_cancel₀ _ (ne_of_lt hneg)] at hfar
  linarith

/-- No external variable is in the objective of a descent. -/
theorem Descending.kind_ne_external (h : t.Descending o) (hv : v ∈ (t.objective o).vars) :
    t.kind v ≠ .external := by
  intro hk
  obtain ⟨htidy, hterm⟩ := h.linked.tidy_objective o
  have hbasic := (hterm v hv).2
  have hrespects : ∀ x, t.Respects (t.moved v x) := by
    refine fun x => h.linked.respects_moved hbasic (Kind.admits_of_external hk x) fun r hr => ?_
    by_cases hb : t.kind r.basic = .external
    · exact Kind.admits_of_external hb _
    · have hnot : v ∉ r.expr.vars := fun hmem => (h.feasible r hr).2.2 hb v hmem hk
      rw [LinExpr.coefficient_of_notMem hnot, zero_mul, add_zero]
      exact ⟨(h.feasible r hr).1, (h.feasible r hr).2.1⟩
  obtain ⟨⟨v, vector⟩, hmem, rfl⟩ := List.mem_map.mp hv
  have hcoef : (t.objective o).coefficient v = vector := by
    rw [Goal.coefficient, (Assoc.get?_eq_some_iff htidy.nodup).mpr hmem, Option.getD_some]
  refine absurd (htidy.ne_zero _ hmem) ?_
  rw [Bool.not_eq_false]
  refine TierVector.isZero_iff.mpr fun s => ?_
  have hup := h.nonneg_of_ray v 1 (fun x _ => hrespects _) s
  have hdown := h.nonneg_of_ray v (-1) (fun x _ => hrespects _) s
  rw [hcoef] at hup hdown
  linarith

/-- What enters in a descent is restricted, grows and lowers the objective, and has the least
handle of all that do. -/
theorem Descending.entering (h : t.Descending o) (henter : t.entering? o = some (v, dir)) :
    dir = .up ∧ (t.kind v).restricted ∧ byTier ((t.objective o).coefficient v).get < 0 ∧
      ∀ w, (t.kind w).restricted → byTier ((t.objective o).coefficient w).get < 0 → ¬w < v := by
  have htidy := (h.linked.tidy_objective o).1
  have hcoef : ∀ w vector, (w, vector) ∈ (t.objective o).terms →
      (t.objective o).coefficient w = vector := by
    intro w vector hmem
    rw [Goal.coefficient, (Assoc.get?_eq_some_iff htidy.nodup).mpr hmem, Option.getD_some]
  have himproving : ∀ w vector, (t.kind w).restricted →
      t.improving w vector = if vector.sign = .lt then some .up else none := by
    intro w vector hw
    rw [improving]
    cases hk : t.kind w with
    | external => exact absurd (hk ▸ hw) (by simp [Kind.restricted])
    | constant => exact absurd (hk ▸ hw) (by simp [Kind.restricted])
    | slack => cases vector.sign <;> simp
    | error => cases vector.sign <;> simp
  obtain ⟨vector, hmem, himp⟩ := exists_of_entering?_eq_some henter
  obtain ⟨hrestricted, rfl⟩ :=
    improving_of_ne_external himp (h.kind_ne_external (List.mem_map_of_mem hmem))
  refine ⟨rfl, hrestricted, ?_, fun w hw hneg => ?_⟩
  · rw [himproving v vector hrestricted] at himp
    rw [hcoef v vector hmem, ← TierVector.sign_eq_lt_iff]
    by_contra hsign
    rw [if_neg hsign] at himp
    exact absurd himp (by simp)
  · have hw' : ∃ x, (w, x) ∈ (t.objective o).terms := by
      cases hget : (t.objective o).terms.get? w with
      | some x => exact ⟨x, (Assoc.get?_eq_some_iff htidy.nodup).mp hget⟩
      | none =>
          have hzero : ((t.objective o).coefficient w).get = fun _ => 0 := by
            rw [Goal.coefficient, hget]
            exact funext TierVector.get_zero
          rw [hzero, byTier_zero] at hneg
          exact absurd hneg (lt_irrefl 0)
    obtain ⟨x, hx⟩ := hw'
    rw [hcoef w x hx, ← TierVector.sign_eq_lt_iff] at hneg
    refine not_lt_of_lowest?_eq_some henter (y := (w, .up)) ?_
    refine List.mem_filterMap.mpr ⟨(w, x), hx, ?_⟩
    rw [himproving w x hw, if_pos hneg]
    rfl

/-- A **descent is bounded**: a row stops the variable that enters. -/
theorem Descending.exists_leaving (h : t.Descending o) (henter : t.entering? o = some (v, dir)) :
    ∃ id, t.leaving? v dir = some id := by
  obtain ⟨rfl, hrestricted, hneg, -⟩ := h.entering henter
  obtain ⟨s, hs⟩ := exists_neg_of_byTier_neg hneg
  obtain ⟨vector, hmem, -⟩ := exists_of_entering?_eq_some henter
  have hbasic := ((h.linked.tidy_objective o).2 v (List.mem_map_of_mem hmem)).2
  by_contra hnone
  have hnil : t.blockers v .up = [] := by
    rw [← Blocker.first?_eq_none_iff, ← Option.not_isSome_iff_eq_none]
    intro hsome
    obtain ⟨b, hb⟩ := Option.isSome_iff_exists.mp hsome
    exact hnone ⟨b.row, by rw [leaving?, hb]; rfl⟩
  have hfree : ∀ r ∈ t.rows, v ∈ r.expr.vars → t.blocker? v .up r = none := fun r hr hv =>
    List.filterMap_eq_nil_iff.mp hnil r (h.linked.mem_referring.mpr ⟨hr, hv⟩)
  have hray := h.nonneg_of_ray v 1 (fun x hx => ?_) s
  · rw [mul_one] at hray
    exact absurd hs (not_lt.mpr hray)
  · rw [one_mul]
    refine h.linked.respects_moved hbasic (Kind.admits_of_nonneg hrestricted hx) fun r hr => ?_
    by_cases hv : v ∈ r.expr.vars
    · refine admits_of_le_ratio (basicFeasible_iff.mp h.feasible r hr) hx fun b hb => ?_
      rw [hfree r hr hv] at hb
      exact absurd hb (by simp)
    · rw [LinExpr.coefficient_of_notMem hv, zero_mul, add_zero]
      exact ⟨(h.feasible r hr).1, (h.feasible r hr).2.1⟩

/-! ### One exchange -/

/-- Counting is no obstacle to a descent. -/
theorem Descending.count (h : t.Descending o) (f : Counters → Counters) :
    (t.count f).Descending o := by
  have hrows := rows_count t f
  refine ⟨h.linked.count f, h.normal.of_rows hrows, h.feasible.count f, fun a ha hrespects s => ?_⟩
  rw [objective_count]
  exact h.nonneg a ((satisfies_congr hrows).mp ha)
    ((respects_congr (kind_count t f)).mp hrespects) s

/-- A descent goes on after an exchange. -/
theorem Descending.redefine (h : t.Descending o) (henter : t.entering? o = some (v, dir))
    (hleave : t.leaving? v dir = some r.id) (hrow : t.row? r.id = some r) :
    (t.redefine r v).Descending o := by
  obtain ⟨hr, hv⟩ := h.linked.mem_of_leaving? hleave hrow
  refine ⟨h.linked.redefine hr hv, h.linked.normal_redefine h.normal hr,
    h.feasible.exchange h.linked h.normal henter hleave hrow, fun a ha hrespects s => ?_⟩
  have hsat := (h.linked.satisfies_redefine h.normal hr hv).mp ha
  rw [h.linked.evalAt_redefine h.normal hr hv o hsat]
  exact h.nonneg a hsat ((respects_congr (h.linked.sameVars_redefine hr).kind_eq).mp hrespects) s

/-- What one **exchange** of a descent does: `v` enters for the basic variable of the row `r`, and
the tableau `u` that results says the same. -/
structure Exchange (o : Objective) (t : Tableau Rat Rat) (v : VarId) (r : Row Rat)
    (u : Tableau Rat Rat) : Prop where
  before : t.Descending o
  after : u.Descending o
  mem : r ∈ t.rows
  term : v ∈ r.expr.vars
  restricted : (t.kind v).restricted
  improves : byTier ((t.objective o).coefficient v).get < 0
  least : ∀ w, (t.kind w).restricted → byTier ((t.objective o).coefficient w).get < 0 → ¬w < v
  falls : (t.kind r.basic).restricted → r.expr.coefficient v < 0
  first : ∀ q ∈ t.rows, (t.kind q.basic).restricted → q.expr.coefficient v < 0 →
    q.expr.constant = 0 → r.expr.constant = 0 → ¬q.basic < r.basic
  isBasic_iff : ∀ w, u.IsBasic w ↔ w = v ∨ (t.IsBasic w ∧ w ≠ r.basic)
  kind_eq : ∀ w, u.kind w = t.kind w
  satisfies_iff : ∀ a, u.Satisfies a ↔ t.Satisfies a
  evalAt_eq : ∀ a, t.Satisfies a → ∀ s,
    (u.objective o).evalAt s a = (t.objective o).evalAt s a

/-- The row that gives way stands where its restricted variable falls, and of those at zero it is
the one whose variable has the least handle. Rows at zero stop the variable at once, so the handles
decide between them. -/
theorem Linked.blocks (h : t.Linked none) (hr : r ∈ t.rows)
    (hleave : t.leaving? v .up = some r.id) :
    ((t.kind r.basic).restricted → r.expr.coefficient v < 0) ∧
      ∀ q ∈ t.rows, (t.kind q.basic).restricted → q.expr.coefficient v < 0 →
        q.expr.constant = 0 → r.expr.constant = 0 → ¬q.basic < r.basic := by
  obtain ⟨r', hr', -, hid, b, hfirst, hb⟩ := h.exists_row_of_leaving? hleave
  obtain rfl := h.eq_of_id_eq hr' hr hid
  have hup : ∀ c : Rat, c * Direction.up.sign = c := mul_one
  refine ⟨fun hk => ?_, fun q hq hk hneg hq0 hr0 => ?_⟩
  · rw [blocker?_of_restricted hk, hup] at hb
    by_contra hnot
    rw [if_neg hnot] at hb
    exact absurd hb (by simp)
  · have hqb : t.blocker? v .up q = _ := blocker?_of_restricted hk
    rw [hup, if_pos hneg] at hqb
    have hqv : v ∈ q.expr.vars := by
      by_contra hnot
      exact absurd hneg (by simp [LinExpr.coefficient_of_notMem hnot])
    obtain ⟨-, hbefore⟩ := Blocker.before_of_first?_eq_some hfirst
      (List.mem_filterMap.mpr ⟨q, h.mem_referring.mpr ⟨hq, hqv⟩, hqb⟩)
    have hratio : b.ratio = 0 ∧ b.basic = r'.basic := by
      rcases (t.kind r'.basic).eq_or_restricted with hk' | hk' | hk'
      · rw [blocker?_of_external hk'] at hb
        exact absurd hb (by simp)
      · rw [blocker?_of_constant hk'] at hb
        obtain rfl := Option.some.inj hb
        exact ⟨rfl, rfl⟩
      · rw [blocker?_of_restricted hk', hup] at hb
        by_cases hneg' : r'.expr.coefficient v < 0
        · rw [if_pos hneg'] at hb
          obtain rfl := Option.some.inj hb
          exact ⟨by rw [hr0, neg_zero, zero_div], rfl⟩
        · rw [if_neg hneg'] at hb
          exact absurd hb (by simp)
    rw [hratio.1, hratio.2, hq0, neg_zero, zero_div] at hbefore
    exact hbefore rfl

/-- The exchange of a descent. -/
theorem Descending.exchange (h : t.Descending o) (henter : t.entering? o = some (v, dir))
    (hleave : t.leaving? v dir = some r.id) (hrow : t.row? r.id = some r) :
    Exchange o t v r (t.redefine r v) := by
  obtain ⟨hr, hv⟩ := h.linked.mem_of_leaving? hleave hrow
  obtain ⟨rfl, hrestricted, himproves, hleast⟩ := h.entering henter
  obtain ⟨hfalls, hfirst⟩ := h.linked.blocks hr hleave
  exact ⟨h, h.redefine henter hleave hrow, hr, hv, hrestricted, himproves, hleast, hfalls, hfirst,
    fun w => h.linked.isBasic_redefine hr v w, (h.linked.sameVars_redefine hr).kind_eq,
    fun a => h.linked.satisfies_redefine h.normal hr hv,
    fun a ha s => h.linked.evalAt_redefine h.normal hr hv o ha s⟩

/-- Counting does not change what an exchange does. -/
theorem Exchange.of_count {f g : Counters → Counters} (h : Exchange o (t.count f) v r u)
    (ht : t.Descending o) : Exchange o t v r (u.count g) := by
  obtain ⟨-, hafter, hmem, hterm, hrestricted, himproves, hleast, hfalls, hfirst, hbasic, hkind,
    hsat, heval⟩ := h
  have hrows := rows_count t f
  have hrows' := rows_count u g
  simp only [kind_count, objective_count] at hrestricted himproves hleast hfalls hfirst hkind heval
  rw [hrows] at hmem hfirst
  refine ⟨ht, hafter.count g, hmem, hterm, hrestricted, himproves, hleast, hfalls, hfirst,
    fun w => ?_, fun w => ?_, fun a => ?_, fun a ha s => ?_⟩
  · rw [isBasic_congr hrows', hbasic, isBasic_congr hrows]
  · rw [kind_count, hkind]
  · rw [satisfies_congr hrows', hsat, satisfies_congr hrows]
  · rw [objective_count]
    exact heval a ((satisfies_congr hrows).mpr ha) s

/-- The **next exchange** of a descent. -/
theorem Descending.exists_exchange (h : t.Descending o) (hu : t.advance o = some u) :
    ∃ v r, Exchange o t v r u := by
  obtain ⟨v, dir, r, f, g, henter, hleave, hrow, rfl⟩ := h.linked.of_advance hu
  rw [← entering?_count t f] at henter
  rw [← leaving?_count t f] at hleave
  rw [← row?_count t f] at hrow
  exact ⟨v, r, ((h.count f).exchange henter hleave hrow).of_count h⟩

namespace Exchange

/-- The variable that enters was not basic. -/
theorem not_isBasic (h : Exchange o t v r u) : ¬t.IsBasic v :=
  ((h.before.linked.row r h.mem).term v h.term).2

/-- The variable that enters is at a value that is not negative. -/
theorem rowValue_nonneg (h : Exchange o t v r u) : 0 ≤ u.rowValue v := by
  refine (h.after.feasible.admits_rowValue h.after.linked v).1 ?_
  rw [h.kind_eq]
  exact h.restricted

/-- The constant of the objective moves with the variable that enters. -/
theorem get_constant (h : Exchange o t v r u) (s : Strength) :
    (u.objective o).constant.get s = (t.objective o).constant.get s +
      ((t.objective o).coefficient v).get s * u.rowValue v := by
  have hsat := (h.satisfies_iff _).mp h.after.linked.satisfies_rowValue
  have hsingle : (t.objective o).evalAt s u.rowValue =
      (t.objective o).evalAt s (update (fun _ => 0) v (u.rowValue v)) := by
    refine Goal.evalAt_congr (fun w hw => ?_) s
    by_cases hwv : w = v
    · rw [hwv, update_self]
    · rw [update_of_ne hwv]
      refine h.after.linked.rowValue_of_not_isBasic fun hb => ?_
      rcases (h.isBasic_iff w).mp hb with hwv' | ⟨hw', -⟩
      · exact hwv hwv'
      · exact ((h.before.linked.tidy_objective o).2 w hw).2 hw'
  rw [← h.after.linked.evalAt_rowValue, h.evalAt_eq _ hsat, hsingle,
    h.before.linked.evalAt_single]

/-- An exchange never raises the objective. -/
theorem byTier_constant_le (h : Exchange o t v r u) :
    byTier (u.objective o).constant.get ≤ byTier (t.objective o).constant.get := by
  have hvalue : (u.objective o).constant.get = fun s => (t.objective o).constant.get s -
      -((t.objective o).coefficient v).get s * u.rowValue v := by
    funext s
    rw [h.get_constant]
    ring
  have hopposite : 0 ≤ byTier fun s => -((t.objective o).coefficient v).get s := by
    rw [byTier_neg]
    exact neg_nonneg.mpr (le_of_lt h.improves)
  rw [hvalue, byTier_sub]
  exact sub_le_self _ (byTier_mul_nonneg hopposite h.rowValue_nonneg)

/-- Where an exchange leaves the objective, the variable that enters does not move. -/
theorem rowValue_entering (h : Exchange o t v r u)
    (hconst : (u.objective o).constant.get = (t.objective o).constant.get) :
    u.rowValue v = 0 := by
  obtain ⟨s, hs⟩ := exists_neg_of_byTier_neg h.improves
  have hvalue := h.get_constant s
  rw [hconst, left_eq_add, mul_eq_zero] at hvalue
  exact hvalue.resolve_left (ne_of_lt hs)

/-- Where an exchange leaves the objective, no variable moves. -/
theorem rowValue_eq (h : Exchange o t v r u)
    (hconst : (u.objective o).constant.get = (t.objective o).constant.get) :
    u.rowValue = t.rowValue := by
  refine h.before.linked.eq_rowValue ?_ fun w hw => ?_
  · exact (h.satisfies_iff _).mp h.after.linked.satisfies_rowValue
  · by_cases hwv : w = v
    · rw [hwv]
      exact h.rowValue_entering hconst
    · refine h.after.linked.rowValue_of_not_isBasic fun hb => ?_
      rcases (h.isBasic_iff w).mp hb with heq | ⟨hb, -⟩
      · exact hwv heq
      · exact hw hb

end Exchange

/-! ### The end of a descent -/

/-- Where nothing enters, the constant of the objective is at most its value in any solution that
respects the kinds. -/
theorem Linked.constant_le_of_entering?_eq_none (h : t.Linked none)
    (hnone : t.entering? o = none) (hrespects : t.Respects a) :
    byTier (t.objective o).constant.get ≤ byTier fun s => (t.objective o).evalAt s a := by
  rw [entering?_eq_none_iff] at hnone
  refine Goal.byTier_constant_le fun term hterm => ?_
  have himproving := hnone term hterm
  have hne := (h.tidy_objective o).1.ne_zero term hterm
  rw [improving] at himproving
  have hrestricted : (t.kind term.1).restricted → term.2.sign ≠ .lt →
      0 ≤ byTier fun s => term.2.get s * a term.1 := fun hk hsign =>
    byTier_mul_nonneg (not_lt.mp fun hneg => hsign (TierVector.sign_eq_lt_iff.mpr hneg))
      ((hrespects term.1).1 hk)
  cases hk : t.kind term.1 with
  | constant => simp [(hrespects term.1).2 hk]
  | external =>
      rw [hk] at himproving
      have hsign : term.2.sign = .eq := by
        cases hs : term.2.sign <;> simp [hs] at himproving ⊢
      rcases term.2.sign_cases with ⟨-, hzero⟩ | ⟨hs, -⟩ | ⟨hs, -⟩
      · have hget : term.2.get = fun _ => 0 := byTier_injective hzero
        have hiszero : term.2.isZero := TierVector.isZero_iff.mpr fun s => congrFun hget s
        exact absurd hiszero (by simp [hne])
      · exact absurd (hsign.symm.trans hs) (by simp)
      · exact absurd (hsign.symm.trans hs) (by simp)
  | slack =>
      rw [hk] at himproving
      refine hrestricted (by rw [hk]; rfl) fun hs => ?_
      simp [hs] at himproving
  | error =>
      rw [hk] at himproving
      refine hrestricted (by rw [hk]; rfl) fun hs => ?_
      simp [hs] at himproving

/-- A descent keeps the solutions and the kinds, and never raises its objective. -/
structure Descended (o : Objective) (t u : Tableau Rat Rat) : Prop where
  descending : u.Descending o
  kind_eq : ∀ w, u.kind w = t.kind w
  satisfies_iff : ∀ a, u.Satisfies a ↔ t.Satisfies a
  evalAt_eq : ∀ a, t.Satisfies a → ∀ s,
    (u.objective o).evalAt s a = (t.objective o).evalAt s a
  constant_le : byTier (u.objective o).constant.get ≤ byTier (t.objective o).constant.get

/-- A descent may stop where it starts. -/
theorem Descending.refl (h : t.Descending o) : Descended o t t :=
  ⟨h, fun _ => rfl, fun _ => Iff.rfl, fun _ _ _ => rfl, le_refl _⟩

/-- Counting changes nothing about what a descent reached. -/
theorem Descended.count (h : Descended o t u) (f : Counters → Counters) :
    Descended o t (u.count f) := by
  obtain ⟨hdescending, hkind, hsat, heval, hconst⟩ := h
  refine ⟨hdescending.count f, fun w => ?_, fun a => ?_, fun a ha s => ?_, ?_⟩
  · rw [kind_count, hkind]
  · rw [satisfies_congr (rows_count u f), hsat]
  · rw [objective_count, heval a ha]
  · rwa [objective_count]

/-- A descent may go on by an exchange. -/
theorem Descended.exchange {w : Tableau Rat Rat} (h : Descended o t u)
    (hex : Exchange o u v r w) : Descended o t w :=
  ⟨hex.after, fun x => (hex.kind_eq x).trans (h.kind_eq x),
    fun a => (hex.satisfies_iff a).trans (h.satisfies_iff a),
    fun a ha s => (hex.evalAt_eq a ((h.satisfies_iff a).mpr ha) s).trans (h.evalAt_eq a ha s),
    le_trans hex.byTier_constant_le h.constant_le⟩

/-- A minimisation is a descent all the way. -/
theorem Descending.minimise (h : t.Descending o) : Descended o t (t.minimise o).2 := by
  refine minimise_induction (p := Descended o t) (fun _ f hd => hd.count f) ?_ h.refl
  intro u v dir r hd henter hleave hrow
  exact hd.exchange (hd.descending.exchange henter hleave hrow)

/-- A minimisation that leaves its objective moves no variable. -/
theorem Descending.rowValue_minimise (h : t.Descending o)
    (hconst : byTier (t.objective o).constant.get ≤
      byTier ((t.minimise o).2.objective o).constant.get) :
    (t.minimise o).2.rowValue = t.rowValue := by
  refine (minimise_induction (p := fun u => Descended o t u ∧
    (byTier (t.objective o).constant.get ≤ byTier (u.objective o).constant.get →
      u.rowValue = t.rowValue)) ?_ ?_ ⟨h.refl, fun _ => rfl⟩).2 hconst
  · rintro u f ⟨hd, hkeep⟩
    refine ⟨hd.count f, fun hle => ?_⟩
    rw [objective_count] at hle
    rw [← hkeep hle]
    exact funext (hd.descending.linked.rowValue_congr (hd.descending.linked.count f)
      (rows_count u f))
  · rintro u v dir r ⟨hd, hkeep⟩ henter hleave hrow
    have hex := hd.descending.exchange henter hleave hrow
    refine ⟨hd.exchange hex, fun hle => ?_⟩
    have hbefore := hle.trans hex.byTier_constant_le
    have hsame := le_antisymm hex.byTier_constant_le (hd.constant_le.trans hle)
    rw [hex.rowValue_eq (byTier_injective hsame), hkeep hbefore]

/-- A descent ends where its objective is **least**, or at the limit. -/
theorem Descending.minimise_cases (h : t.Descending o) :
    ((t.minimise o).1 = .ok () ∧ ∀ a, t.Satisfies a → t.Respects a →
        byTier ((t.minimise o).2.objective o).constant.get ≤
          byTier fun s => (t.objective o).evalAt s a) ∨
      ∃ limit, (t.minimise o).1 = .error (.iterationLimit limit) := by
  have hd := h.minimise
  rcases descend_cases o _ _ t with ⟨hok, hnone⟩ | ⟨v, dir, -, henter, hleave⟩ | ⟨hlimit, -⟩
  · refine .inl ⟨hok, fun a ha hrespects => ?_⟩
    have hle := hd.descending.linked.constant_le_of_entering?_eq_none hnone
      ((respects_congr hd.kind_eq).mpr hrespects)
    have hvalue : (fun s => ((t.minimise o).2.objective o).evalAt s a) =
        fun s => (t.objective o).evalAt s a := funext fun s => hd.evalAt_eq a ha s
    rwa [hvalue] at hle
  · obtain ⟨id, hid⟩ := hd.descending.exists_leaving henter
    have hnone : (t.minimise o).2.leaving? v dir = none := hleave
    rw [hnone] at hid
    exact absurd hid (by simp)
  · exact .inr ⟨_, hlimit⟩

/-! ### Objectives -/

/-- The goal of a balanced tableau descends. -/
theorem Balanced.descending (h : t.Balanced) (hl : t.Linked none) (hn : t.Normal)
    (hf : t.BasicFeasible) : t.Descending .goal := by
  refine ⟨hl, hn, hf, fun a ha hrespects s => ?_⟩
  have hvalue : (t.objective .goal).evalAt s a = (t.penalty a).get s := h.evalAt ha s
  rw [hvalue]
  exact hrespects.penalty_nonneg s

/-- The objective of phase one descends. -/
theorem Measures.descending {d : Draft Rat} {art : VarId} (h : Measures t d art u)
    (hf : u.BasicFeasible) : u.Descending .phaseOne := by
  refine ⟨h.linked, h.normal, hf, fun a ha hrespects s => ?_⟩
  rw [h.objective s a ha]
  split
  · exact (hrespects art).1 (by rw [h.kind_eq]; rfl)
  · exact le_refl 0

/-- The measurement of a draft that has no subject descends. -/
theorem BasicFeasible.descending_measured {d : Draft Rat} (h : t.BasicFeasible)
    (hd : t.Admissible d) (hconst : 0 ≤ d.expr.constant) (hsubject : t.subject? d = none)
    (f : Counters → Counters) : ((t.count f).measured d).Descending .phaseOne := by
  have hcounted := hd.count f
  refine hcounted.measurable.measures.descending
    ((h.count f).measured hcounted.placeable hconst ?_)
  simpa only [subject?, kind_count] using hsubject

end Tableau

end LexSimplex
