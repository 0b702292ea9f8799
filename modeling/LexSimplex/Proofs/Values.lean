import Mathlib.Algebra.BigOperators.Ring.List
import Mathlib.Algebra.Order.Field.Rat
import Mathlib.Logic.Function.Basic
import Mathlib.Tactic.FieldSimp
import Mathlib.Tactic.LinearCombination
import Mathlib.Tactic.Ring
import LexSimplex.Proofs.Terms
import LexSimplex.Semantics

/-!
# The values of expressions and goals

In exact arithmetic every operation on expressions has the value that its name says, because
only zero is negligible. The value of an expression under all assignments determines its constant
and its coefficients, so no operation needs a lemma about these as well.

An expression is **normal** if its variables are distinct and it keeps no term whose coefficient
is zero. Then the variables of an expression are those it depends on.

## Main definitions

* `LinExpr.Normal`: distinct variables, no zero coefficient.
* `Goal.evalAt`: the value of a goal at a tier.

## Main results

* `LinExpr.eval_addScaled`, `LinExpr.eval_substitute`: the values of sums and substitutions.
* `LinExpr.eval_solveFor_iff`, `LinExpr.eval_exchange_iff`: an equation solved for a variable.
* `Goal.Tidy.evalAt_substitute`: a substitution in a goal.
-/

namespace LexSimplex

open Function (update update_of_ne update_self)

/-! ### Exact arithmetic -/

/-- Only zero is negligible. -/
theorem negligible_iff {q : Rat} : Coefficient.negligible q ↔ q = 0 := by
  have hbeq : Coefficient.negligible q = (q == 0) := rfl
  rw [hbeq, beq_iff_eq]

/-- Exact numbers are never so small that they are flushed. -/
@[simp] theorem flush_eq (q : Rat) : Coefficient.flush q = q := by
  rw [Coefficient.flush]
  by_cases h : Coefficient.negligible q
  · rw [if_pos h, negligible_iff.mp h]
  · rw [if_neg h]

/-- The absolute value is the one that scalars come with. -/
theorem Scalar.abs_eq (q : Rat) : Scalar.abs q = |q| := by
  have habs : Scalar.abs q = if q < 0 then -q else q := rfl
  rw [habs]
  by_cases hq : q < 0
  · rw [if_pos hq, abs_of_neg hq]
  · rw [if_neg hq, abs_of_nonneg (not_lt.mp hq)]

/-- With a tolerance, what is nearer to zero than the tolerance is negligible. -/
theorem Coefficient.negligible_within_iff {ε q : Rat} :
    (Coefficient.within ε).negligible q ↔ |q| < ε := by
  rw [← Scalar.abs_eq]
  exact decide_eq_true_iff

/-! ### Sums over entries -/

namespace Assoc

variable {κ β : Type} [DecidableEq κ] {m : Assoc κ β}

/-- The entry under a key may be summed apart from the others. -/
theorem sum_swapErase (h : m.keys.Nodup) (f : κ × β → Rat) (k : κ) :
    (m.map f).sum = ((m.swapErase k).map f).sum + ((m.get? k).elim 0 fun b => f (k, b)) := by
  have hperm : ((m.swapErase k).map f).sum = ((m.erase k).map f).sum :=
    ((swapErase_perm h k).map f).sum_eq
  rw [hperm]
  clear hperm
  induction m with
  | nil => simp [erase]
  | cons e m ih =>
      obtain ⟨he, hm⟩ := List.nodup_cons.mp h
      by_cases hk : e.1 = k
      · have hrest : erase (e :: m) k = m := by
          have hall : ∀ x ∈ m, (x.1 != k) = true := by
            intro x hx
            simp only [bne_iff_ne]
            exact fun hxk => he (hk ▸ hxk ▸ List.mem_map_of_mem hx)
          simp [erase, hk, List.filter_eq_self.mpr hall]
        have hek : f (k, e.2) = f e := by rw [← hk]
        rw [hrest, get?_cons, if_pos hk.symm, List.map_cons, List.sum_cons]
        simp only [Option.elim_some, hek]
        ring
      · have hcons : erase (e :: m) k = e :: erase m k := by simp [erase, hk]
        rw [hcons, get?_cons, if_neg (Ne.symm hk), List.map_cons, List.map_cons, List.sum_cons,
          List.sum_cons, ih hm]
        ring

/-- The entry that is inserted is the one under its key. -/
theorem sum_insert (h : m.keys.Nodup) (f : κ × β → Rat) (k : κ) (b : β) :
    ((m.insert k b).map f).sum = ((m.swapErase k).map f).sum + f (k, b) := by
  have hinsert := sum_swapErase (nodup_keys_insert h k b) f k
  rw [get?_insert, if_pos rfl, Option.elim_some] at hinsert
  rw [hinsert]
  have hnodup := nodup_keys_swapErase (nodup_keys_insert h k b) k
  have hperm : ((m.insert k b).swapErase k).Perm (m.swapErase k) := by
    refine (List.perm_ext_iff_of_nodup (List.Nodup.of_map _ hnodup)
      (List.Nodup.of_map _ (nodup_keys_swapErase h k))).mpr fun e => ?_
    obtain ⟨k', b'⟩ := e
    rw [← get?_eq_some_iff hnodup, ← get?_eq_some_iff (nodup_keys_swapErase h k),
      get?_swapErase (nodup_keys_insert h k b), get?_swapErase h, get?_insert]
    by_cases hk : k' = k
    · rw [if_pos hk, if_pos hk]
    · rw [if_neg hk, if_neg hk, if_neg hk]
  rw [(hperm.map f).sum_eq]

end Assoc

/-! ### Linear expressions -/

namespace LinExpr

variable {e d : LinExpr Rat} {a : Assignment} {v w : VarId}

/-- The term of a variable may be taken apart from the others. -/
theorem eval_eq_without (h : e.vars.Nodup) (v : VarId) (a : Assignment) :
    e.eval a = (e.without v).eval a + e.coefficient v * a v := by
  have hsum := Assoc.sum_swapErase h (fun term : VarId × Rat => term.2 * a term.1) v
  have hterm : (e.terms.get? v).elim 0 (fun x => x * a v) = e.coefficient v * a v := by
    rw [coefficient, coefficient?]
    cases e.terms.get? v with
    | none => simp
    | some x => rfl
  rw [eval, eval, hsum, hterm, without, add_assoc]

/-- A variable with no term has the coefficient zero. -/
theorem coefficient_of_notMem (h : v ∉ e.vars) : e.coefficient v = 0 := by
  rw [coefficient, coefficient?_eq_none_iff.mpr h]
  rfl

/-- The value of an expression depends on its variables alone. -/
theorem eval_congr {b : Assignment} (h : ∀ v ∈ e.vars, a v = b v) : e.eval a = e.eval b := by
  rw [eval, eval]
  congr 2
  refine List.map_congr_left fun term hterm => ?_
  rw [h term.1 (List.mem_map_of_mem hterm)]

/-- The value of an expression where one variable has another value. -/
theorem eval_update (h : e.vars.Nodup) (a : Assignment) (v : VarId) (x : Rat) :
    e.eval (update a v x) = (e.without v).eval a + e.coefficient v * x := by
  rw [eval_eq_without h v, update_self]
  congr 1
  refine eval_congr fun w hw => update_of_ne ?_ x a
  exact ((mem_vars_without h v w).mp hw).1

/-- A variable with no term may have any value. -/
theorem eval_update_of_notMem (h : v ∉ e.vars) (a : Assignment) (x : Rat) :
    e.eval (update a v x) = e.eval a :=
  eval_congr fun _ hw => update_of_ne (ne_of_mem_of_not_mem hw h) x a

/-- Where all variables are zero the constant is left. -/
theorem eval_zero (e : LinExpr Rat) : e.eval (fun _ => 0) = e.constant := by
  simp [eval]

/-- The coefficient of a variable is what the value changes by with it. -/
theorem coefficient_eq_eval (h : e.vars.Nodup) (v : VarId) :
    e.coefficient v = e.eval (update (fun _ => 0) v 1) - e.constant := by
  have hzero := eval_eq_without h v (fun _ => 0)
  rw [eval_zero, mul_zero, add_zero] at hzero
  rw [eval_update h, hzero]
  ring

/-- Adding a term adds its value. -/
theorem eval_addTerm (h : e.vars.Nodup) (v : VarId) (c : Rat) (a : Assignment) :
    (e.addTerm v c).eval a = e.eval a + c * a v := by
  rw [addTerm]
  by_cases hc : Coefficient.negligible c
  · rw [if_pos hc, negligible_iff.mp hc]
    ring
  · rw [if_neg hc]
    cases hx : e.coefficient? v with
    | none =>
        simp only [eval, List.map_append, List.sum_append, List.map_cons, List.map_nil,
          List.sum_cons, List.sum_nil]
        ring
    | some x =>
        have hcoef : e.coefficient v = x := by rw [coefficient, hx, Option.getD_some]
        have hsplit := eval_eq_without h v a
        rw [hcoef] at hsplit
        by_cases hsum : Coefficient.negligible (x + c)
        · simp only [hsum, if_true]
          have hzero : x + c = 0 := negligible_iff.mp hsum
          linear_combination -(a v) * hzero - hsplit
        · simp only [hsum]
          have hset : e.terms.set v (x + c) = e.terms.insert v (x + c) := by
            have hmem : e.terms.contains v := by
              rw [Assoc.contains]
              exact Option.isSome_iff_exists.mpr ⟨x, hx⟩
            rw [Assoc.insert, if_pos hmem]
          have hinsert :=
            Assoc.sum_insert h (fun term : VarId × Rat => term.2 * a term.1) v (x + c)
          rw [hsplit]
          simp only [eval, without, hset, Bool.false_eq_true, if_false, hinsert]
          ring

/-- Setting a term replaces its value. -/
theorem eval_setTerm (h : e.vars.Nodup) (v : VarId) (c : Rat) (a : Assignment) :
    (e.setTerm v c).eval a = (e.without v).eval a + c * a v := by
  rw [setTerm]
  by_cases hc : Coefficient.negligible c
  · rw [if_pos hc, negligible_iff.mp hc]
    ring
  · rw [if_neg hc]
    have hinsert := Assoc.sum_insert h (fun term : VarId × Rat => term.2 * a term.1) v c
    simp only [eval, without, hinsert]
    ring

/-- The value of terms added one after another. -/
theorem eval_foldl_addTerm (f : VarId × Rat → Rat) (terms : Assoc VarId Rat)
    (h : e.vars.Nodup) (a : Assignment) :
    (terms.foldl (fun e term => e.addTerm term.1 (f term)) e).eval a =
      e.eval a + (terms.map fun term => f term * a term.1).sum := by
  induction terms generalizing e with
  | nil => simp
  | cons term terms ih =>
      rw [List.foldl_cons, ih (nodup_vars_addTerm h _ _), eval_addTerm h, List.map_cons,
        List.sum_cons]
      ring

/-- Adding a multiple of an expression adds the multiple of its value. -/
theorem eval_addScaled (h : e.vars.Nodup) (d : LinExpr Rat) (c : Rat) (a : Assignment) :
    (e.addScaled d c).eval a = e.eval a + c * d.eval a := by
  have hstart : ({ e with constant := e.constant + c * d.constant } : LinExpr Rat).vars.Nodup := h
  rw [addScaled, eval_foldl_addTerm _ _ hstart]
  have hfactor : (d.terms.map fun term => c * term.2 * a term.1).sum =
      c * (d.terms.map fun term => term.2 * a term.1).sum := by
    rw [← List.sum_map_mul_left]
    simp only [mul_assoc]
  rw [hfactor]
  simp only [eval]
  ring

/-- Negating an expression negates its value. -/
@[simp] theorem eval_negate (e : LinExpr Rat) (a : Assignment) :
    e.negate.eval a = -e.eval a := by
  have hfactor : (e.terms.map fun term => -term.2 * a term.1).sum =
      -1 * (e.terms.map fun term => term.2 * a term.1).sum := by
    rw [← List.sum_map_mul_left]
    congr 1
    exact List.map_congr_left fun term _ => by ring
  simp only [eval, negate, List.map_map, Function.comp_def, hfactor]
  ring

/-- Scaling an expression scales its value. -/
@[simp] theorem eval_scale (e : LinExpr Rat) (m : Rat) (a : Assignment) :
    (e.scale m).eval a = m * e.eval a := by
  have hfactor : (e.terms.map fun term => term.2 * m * a term.1).sum =
      m * (e.terms.map fun term => term.2 * a term.1).sum := by
    rw [← List.sum_map_mul_left]
    congr 1
    exact List.map_congr_left fun term _ => by ring
  simp only [eval, scale, List.map_map, Function.comp_def, hfactor]
  ring

/-- The value of an expression in which `v` was replaced by `d` is its value where `v` has that
of `d`. -/
theorem eval_substitute (h : e.vars.Nodup) (v : VarId) (d : LinExpr Rat) (a : Assignment) :
    (e.substitute v d).eval a = e.eval (update a v (d.eval a)) := by
  rw [substitute]
  cases hx : e.coefficient? v with
  | none => exact (eval_update_of_notMem (coefficient?_eq_none_iff.mp hx) a _).symm
  | some x =>
      have hcoef : e.coefficient v = x := by rw [coefficient, hx, Option.getD_some]
      have hsum := eval_addScaled (nodup_vars_without h v) d x a
      rw [eval_update h, hcoef, ← hsum]
      simp only [eval, flush_eq]

/-- The equation `0 = e` solved for a variable says the same. -/
theorem eval_solveFor_iff (h : e.vars.Nodup) (hv : e.coefficient v ≠ 0) (a : Assignment) :
    a v = (e.solveFor v).eval a ↔ e.eval a = 0 := by
  obtain ⟨x, hx⟩ : ∃ x, e.coefficient? v = some x := by
    cases hx : e.coefficient? v with
    | none => exact absurd (by rw [coefficient, hx]; rfl) hv
    | some x => exact ⟨x, rfl⟩
  have hcoef : e.coefficient v = x := by rw [coefficient, hx, Option.getD_some]
  rw [hcoef] at hv
  rw [solveFor, eval_scale, hx, Option.getD_some, eval_eq_without h v, hcoef]
  constructor
  · intro heq
    rw [heq]
    field_simp
    ring
  · intro heq
    field_simp
    linear_combination heq

/-- A term that is set leaves the other coefficients and the constant. -/
theorem coefficient_setTerm_of_ne (h : e.vars.Nodup) (hve : v ∉ e.vars) (hwv : w ≠ v) (c : Rat) :
    (e.setTerm v c).coefficient w = e.coefficient w ∧
      (e.setTerm v c).constant = e.constant := by
  have hset := eval_setTerm h v c
  have hconst : (e.setTerm v c).constant = e.constant := by
    rw [← eval_zero, hset, without_of_notMem hve, eval_zero, mul_zero, add_zero]
  refine ⟨?_, hconst⟩
  rw [coefficient_eq_eval (nodup_vars_setTerm h v c), coefficient_eq_eval h, hconst, hset,
    without_of_notMem hve, update_of_ne hwv.symm]
  ring

/-- The equation `v = e` solved for another variable says the same. -/
theorem eval_exchange_iff (h : e.vars.Nodup) (hve : v ∉ e.vars) (hwv : w ≠ v)
    (hw : e.coefficient w ≠ 0) (a : Assignment) :
    a w = (e.exchange v w).eval a ↔ a v = e.eval a := by
  have hset := eval_setTerm h v (-1)
  have hnodup := nodup_vars_setTerm h v (-1 : Rat)
  obtain ⟨hcoef, -⟩ := coefficient_setTerm_of_ne h hve hwv (-1)
  rw [exchange, eval_solveFor_iff hnodup (hcoef ▸ hw), hset, without_of_notMem hve]
  constructor
  · intro heq
    linear_combination -heq
  · intro heq
    linear_combination -heq

/-! ### Normal expressions -/

/-- The constant after a substitution is the value where the variable has that of the other
constant. -/
theorem constant_substitute (h : e.vars.Nodup) (v : VarId) (d : LinExpr Rat) :
    (e.substitute v d).constant = e.constant + e.coefficient v * d.constant := by
  rw [← eval_zero, eval_substitute h, eval_update h, eval_zero, eval_zero]
  rfl

/-- Solving for a variable divides the constant by its coefficient. -/
theorem constant_solveFor (h : e.vars.Nodup) (hv : e.coefficient v ≠ 0) :
    (e.solveFor v).constant = -e.constant / e.coefficient v := by
  have hsolved := (eval_solveFor_iff h hv
    (update (fun _ => 0) v (-e.constant / e.coefficient v))).mpr (by
      rw [eval_update h, eval_zero]
      have hconst : (e.without v).constant = e.constant := rfl
      rw [hconst]
      field_simp
      ring)
  have hnot : v ∉ (e.solveFor v).vars := fun hmem => ((mem_vars_solveFor h v v).mp hmem).1 rfl
  rw [update_self, eval_update_of_notMem hnot, eval_zero] at hsolved
  exact hsolved.symm

/-- An exchange divides the constant by the coefficient of the variable that enters. -/
theorem constant_exchange (h : e.vars.Nodup) (hve : v ∉ e.vars) (hwv : w ≠ v)
    (hw : e.coefficient w ≠ 0) :
    (e.exchange v w).constant = -e.constant / e.coefficient w := by
  obtain ⟨hcoef, hconst⟩ := coefficient_setTerm_of_ne h hve hwv (-1)
  rw [exchange, constant_solveFor (nodup_vars_setTerm h v _) (hcoef ▸ hw), hcoef, hconst]

/-- An expression is **normal** if its variables are distinct and none of its coefficients is
zero. -/
structure Normal (e : LinExpr Rat) : Prop where
  nodup : e.vars.Nodup
  ne_zero : ∀ term ∈ e.terms, term.2 ≠ 0

/-- An expression without terms is normal. -/
theorem Normal.of_terms_eq_nil (h : e.terms = []) : e.Normal := by
  refine ⟨?_, ?_⟩
  · rw [vars, h]
    exact List.nodup_nil
  · rw [h]
    exact fun _ hterm => absurd hterm List.not_mem_nil

/-- A normal expression has the variables that it depends on. -/
theorem Normal.mem_vars_iff (h : e.Normal) : v ∈ e.vars ↔ e.coefficient v ≠ 0 := by
  constructor
  · intro hv
    obtain ⟨⟨w, x⟩, hterm, rfl⟩ := List.mem_map.mp hv
    have hx : e.coefficient? w = some x := (Assoc.get?_eq_some_iff h.nodup).mpr hterm
    rw [coefficient, hx]
    exact h.ne_zero _ hterm
  · intro hv
    by_contra hnot
    exact hv (coefficient_of_notMem hnot)

/-- Taking a variable out keeps an expression normal. -/
theorem Normal.without (h : e.Normal) (v : VarId) : (e.without v).Normal :=
  ⟨nodup_vars_without h.nodup v,
    fun term hterm => h.ne_zero term (Assoc.mem_of_mem_swapErase hterm)⟩

/-- Adding a term keeps an expression normal. -/
theorem Normal.addTerm (h : e.Normal) (v : VarId) (c : Rat) : (e.addTerm v c).Normal := by
  refine ⟨nodup_vars_addTerm h.nodup v c, ?_⟩
  rw [LinExpr.addTerm]
  by_cases hc : Coefficient.negligible c
  · rw [if_pos hc]
    exact h.ne_zero
  · rw [if_neg hc]
    rw [negligible_iff] at hc
    cases hx : e.coefficient? v with
    | none =>
        intro term hterm
        rcases List.mem_append.mp hterm with hterm | hterm
        · exact h.ne_zero term hterm
        · obtain rfl := List.mem_singleton.mp hterm
          exact hc
    | some x =>
        by_cases hsum : Coefficient.negligible (x + c)
        · simp only [hsum, if_true]
          exact (h.without v).ne_zero
        · simp only [hsum, Bool.false_eq_true, if_false]
          rw [negligible_iff] at hsum
          intro term hterm
          obtain ⟨term', hterm', rfl⟩ := List.mem_map.mp hterm
          by_cases hv : term'.1 = v
          · simp only [hv, if_true]
            exact hsum
          · simp only [hv, if_false]
            exact h.ne_zero term' hterm'

/-- Setting a term keeps an expression normal. -/
theorem Normal.setTerm (h : e.Normal) (v : VarId) (c : Rat) : (e.setTerm v c).Normal := by
  refine ⟨nodup_vars_setTerm h.nodup v c, ?_⟩
  rw [LinExpr.setTerm]
  by_cases hc : Coefficient.negligible c
  · rw [if_pos hc]
    exact (h.without v).ne_zero
  · rw [if_neg hc]
    rw [negligible_iff] at hc
    intro term hterm
    rcases Assoc.mem_of_mem_insert hterm with rfl | hterm
    · exact hc
    · exact h.ne_zero term hterm

/-- Adding terms keeps an expression normal. -/
theorem Normal.foldl_addTerm (f : VarId × Rat → Rat) (terms : Assoc VarId Rat) (h : e.Normal) :
    (terms.foldl (fun e term => e.addTerm term.1 (f term)) e).Normal := by
  induction terms generalizing e with
  | nil => exact h
  | cons term terms ih => exact ih (h.addTerm term.1 (f term))

/-- Adding a multiple of an expression keeps an expression normal. -/
theorem Normal.addScaled (h : e.Normal) (d : LinExpr Rat) (c : Rat) :
    (e.addScaled d c).Normal :=
  Normal.foldl_addTerm (fun term => c * term.2) d.terms
    (e := { e with constant := e.constant + c * d.constant }) ⟨h.nodup, h.ne_zero⟩

/-- Negating keeps an expression normal. -/
theorem Normal.negate (h : e.Normal) : e.negate.Normal := by
  refine ⟨(vars_negate e).symm ▸ h.nodup, fun term hterm => ?_⟩
  obtain ⟨term', hterm', rfl⟩ := List.mem_map.mp hterm
  exact neg_ne_zero.mpr (h.ne_zero term' hterm')

/-- Scaling by a number other than zero keeps an expression normal. -/
theorem Normal.scale (h : e.Normal) {m : Rat} (hm : m ≠ 0) : (e.scale m).Normal := by
  refine ⟨(vars_scale e m).symm ▸ h.nodup, fun term hterm => ?_⟩
  obtain ⟨term', hterm', rfl⟩ := List.mem_map.mp hterm
  exact mul_ne_zero (h.ne_zero term' hterm') hm

/-- Solving for a variable keeps an expression normal. -/
theorem Normal.solveFor (h : e.Normal) (v : VarId) : (e.solveFor v).Normal := by
  refine (h.without v).scale (div_ne_zero (by norm_num) ?_)
  cases hx : e.coefficient? v with
  | none => exact one_ne_zero
  | some x => exact h.ne_zero (v, x) ((Assoc.get?_eq_some_iff h.nodup).mp hx)

/-- An exchange keeps an expression normal. -/
theorem Normal.exchange (h : e.Normal) (v w : VarId) : (e.exchange v w).Normal :=
  (h.setTerm v (-1)).solveFor w

/-- Replacing a variable keeps an expression normal. -/
theorem Normal.substitute (h : e.Normal) (v : VarId) (d : LinExpr Rat) :
    (e.substitute v d).Normal := by
  rw [LinExpr.substitute]
  cases e.coefficient? v with
  | none => exact h
  | some x =>
      obtain ⟨hnodup, hne⟩ := (h.without v).addScaled d x
      exact ⟨hnodup, hne⟩

end LinExpr

/-! ### Tier vectors -/

namespace TierVector

/-- The zero vector is zero at every tier. -/
@[simp] theorem get_zero (s : Strength) : (zero : TierVector Rat).get s = 0 :=
  get_ofFn _ s

/-- A unit vector is one at its tier and zero at the others. -/
theorem get_unit (s s' : Strength) :
    (unit s : TierVector Rat).get s' = if s' = s then 1 else 0 :=
  get_ofFn _ s'

/-- A multiple of a vector is added tier by tier. -/
@[simp] theorem get_addScaled (a b : TierVector Rat) (c : Rat) (s : Strength) :
    (a.addScaled b c).get s = a.get s + b.get s * c := by
  rw [addScaled, get_ofFn]
  by_cases hz : b.get s == 0
  · rw [if_pos hz, beq_iff_eq.mp hz]
    ring
  · rw [if_neg hz, flush_eq]

/-- A vector is scaled tier by tier. -/
@[simp] theorem get_scaled (a : TierVector Rat) (c : Rat) (s : Strength) :
    (a.scaled c).get s = a.get s * c := by
  rw [scaled, get_ofFn, flush_eq]

/-- A vector is zero if it is zero at every tier. -/
theorem isZero_iff {a : TierVector Rat} : a.isZero ↔ ∀ s, a.get s = 0 := by
  have hall : ∀ s, s ∈ Strength.all := by
    intro s
    cases s <;> decide
  rw [isZero, toList, List.all_map, List.all_eq_true]
  simp only [Function.comp_apply, negligible_iff]
  exact ⟨fun h s => h s (hall s), fun h s _ => h s⟩

end TierVector

/-! ### Goals -/

namespace Goal

variable {g : Goal Rat} {a : Assignment} {v : VarId} {s : Strength}

/-- The value of a goal at a tier. -/
def evalAt (g : Goal Rat) (s : Strength) (a : Assignment) : Rat :=
  g.constant.get s + (g.terms.map fun term => term.2.get s * a term.1).sum

/-- The term of a variable may be taken apart from the others. -/
theorem Tidy.evalAt_eq_without (h : g.Tidy) (v : VarId) (s : Strength) (a : Assignment) :
    g.evalAt s a = (g.without v).evalAt s a + (g.coefficient v).get s * a v := by
  have hsum :=
    Assoc.sum_swapErase h.nodup (fun term : VarId × TierVector Rat => term.2.get s * a term.1) v
  have hterm : (g.terms.get? v).elim 0 (fun x => x.get s * a v) =
      (g.coefficient v).get s * a v := by
    rw [coefficient]
    cases g.terms.get? v with
    | none => simp
    | some x => rfl
  rw [evalAt, evalAt, hsum, hterm, Goal.without, add_assoc]

/-- Where all variables are zero the constant is left. -/
theorem evalAt_zero (g : Goal Rat) (s : Strength) :
    g.evalAt s (fun _ => 0) = g.constant.get s := by
  simp [evalAt]

/-- The value of a goal depends on its variables alone. -/
theorem evalAt_congr {b : Assignment} (h : ∀ v ∈ g.vars, a v = b v) (s : Strength) :
    g.evalAt s a = g.evalAt s b := by
  rw [evalAt, evalAt]
  congr 2
  refine List.map_congr_left fun term hterm => ?_
  rw [h term.1 (List.mem_map_of_mem hterm)]

/-- The value of a goal where one variable is moved. -/
theorem Tidy.evalAt_update (h : g.Tidy) (s : Strength) (a : Assignment) (v : VarId) (x : Rat) :
    g.evalAt s (update a v x) =
      (g.without v).evalAt s a + (g.coefficient v).get s * x := by
  rw [h.evalAt_eq_without v, update_self]
  congr 1
  refine evalAt_congr (fun w hw => update_of_ne ?_ x a) s
  exact ((h.mem_vars_without v w).mp hw).1

/-- Adding a term to a goal adds its value. -/
theorem Tidy.evalAt_addTerm (h : g.Tidy) (v : VarId) (b : TierVector Rat) (c : Rat)
    (s : Strength) (a : Assignment) :
    (g.addTerm v b c).evalAt s a = g.evalAt s a + b.get s * c * a v := by
  have hsplit := h.evalAt_eq_without v s a
  rw [Goal.addTerm]
  by_cases hz : ((g.coefficient v).addScaled b c).isZero
  · rw [if_pos hz]
    have hzero := TierVector.isZero_iff.mp hz s
    rw [TierVector.get_addScaled] at hzero
    linear_combination -(a v) * hzero - hsplit
  · rw [if_neg hz]
    have hinsert := Assoc.sum_insert h.nodup
      (fun term : VarId × TierVector Rat => term.2.get s * a term.1) v
      ((g.coefficient v).addScaled b c)
    rw [hsplit]
    simp only [evalAt, Goal.without, hinsert, TierVector.get_addScaled]
    ring

/-- Adding terms to a goal adds their values. -/
theorem Tidy.evalAt_foldl_addTerm (f : VarId × Rat → Rat) (b : TierVector Rat)
    (terms : Assoc VarId Rat) (h : g.Tidy) (s : Strength) (a : Assignment) :
    (terms.foldl (fun g term => g.addTerm term.1 b (f term)) g).evalAt s a =
      g.evalAt s a + b.get s * (terms.map fun term => f term * a term.1).sum := by
  induction terms generalizing g with
  | nil => simp
  | cons term terms ih =>
      rw [List.foldl_cons, ih (h.addTerm _ _ _), h.evalAt_addTerm, List.map_cons, List.sum_cons]
      ring

/-- Adding a multiple of an expression to a goal adds the multiple of its value. -/
theorem Tidy.evalAt_addScaled (h : g.Tidy) (e : LinExpr Rat) (b : TierVector Rat) (c : Rat)
    (s : Strength) (a : Assignment) :
    (g.addScaled e b c).evalAt s a = g.evalAt s a + b.get s * c * e.eval a := by
  have hfactor : (e.terms.map fun term => c * term.2 * a term.1).sum =
      c * (e.terms.map fun term => term.2 * a term.1).sum := by
    rw [← List.sum_map_mul_left]
    simp only [mul_assoc]
  rw [Goal.addScaled, Tidy.evalAt_foldl_addTerm _ _ _ (h.withConstant _), hfactor]
  simp only [evalAt, LinExpr.eval, TierVector.get_addScaled]
  ring

/-- The coefficient of a variable is what the value changes by with it. -/
theorem Tidy.get_coefficient (h : g.Tidy) (v : VarId) (s : Strength) :
    (g.coefficient v).get s = g.evalAt s (update (fun _ => 0) v 1) - g.constant.get s := by
  have hzero := h.evalAt_eq_without v s (fun _ => 0)
  rw [evalAt_zero, mul_zero, add_zero] at hzero
  rw [h.evalAt_update, hzero]
  ring

/-- The value of a goal in which `v` was replaced by `d` is its value where `v` has that of
`d`. -/
theorem Tidy.evalAt_substitute (h : g.Tidy) (v : VarId) (d : LinExpr Rat) (s : Strength)
    (a : Assignment) :
    (g.substitute v d).evalAt s a = g.evalAt s (update a v (d.eval a)) := by
  rw [h.evalAt_update, Goal.substitute, coefficient]
  cases hx : g.terms.get? v with
  | none =>
      have hv : v ∉ g.vars := Assoc.get?_eq_none_iff.mp hx
      have hkeep : (g.without v).evalAt s a = g.evalAt s a := by
        rw [h.evalAt_eq_without v, coefficient, hx]
        simp
      rw [hkeep]
      simp
  | some x =>
      dsimp only
      rw [(h.without v).evalAt_addScaled, Option.getD_some]
      ring

/-- An expression read as a goal of one tier has its value there, and zero elsewhere. -/
theorem evalAt_ofExpr (e : LinExpr Rat) (s s' : Strength) (a : Assignment) :
    (ofExpr e s).evalAt s' a = if s' = s then e.eval a else 0 := by
  have hstart : (⟨(TierVector.unit s).scaled e.constant, []⟩ : Goal Rat).Tidy :=
    Tidy.zero.withConstant _
  rw [ofExpr, Tidy.evalAt_foldl_addTerm (fun term => term.2) _ _ hstart]
  simp only [evalAt, LinExpr.eval, TierVector.get_scaled, TierVector.get_unit, List.map_nil,
    List.sum_nil]
  by_cases hs : s' = s
  · simp only [hs, if_true]
    ring
  · simp only [hs, if_false]
    ring

end Goal

end LexSimplex
