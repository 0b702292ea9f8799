import Mathlib.Combinatorics.Pigeonhole
import Mathlib.Data.Finset.Max
import LexSimplex.Proofs.Optimality

/-!
# Minimisations that halt

An exchange at a basic variable that stands at zero does not lower the objective, so it is not
obvious that a minimisation halts. It does because of the choice by handles (**Bland's rule**): the
exchanges of a minimisation never come back to a basis, and there are only so many.

Suppose that they do. Along the cycle the objective cannot fall, so no variable moves. Take the
variable with the highest handle that enters, once where it enters and once where it leaves. The
variable that enters when it leaves, moved by one, lowers the objective; so it does at the other
tableau, where some term must then have the wrong sign. But every variable to which this term can
belong either would have been chosen there before the highest one, or would have stopped the other
before it.

## Main definitions

* `Tableau.Cycle`: exchanges that come back to a basis.
* `Solver.Begins`: the minimisations of a solver.

## Main results

* `Tableau.Cycle.false`: there is no cycle.
* `Tableau.Descending.exchanges_eq_none`: so many exchanges are never made.
* `Solver.Reachable.minimisation_halts`: minimisations do not cycle, and halt if they may go on.
-/

namespace LexSimplex

open Function (update update_self update_of_ne)

namespace Tableau

variable {o : Objective} {t u w : Tableau Rat Rat} {v z : VarId} {n k m : Nat}

/-! ### Cycles -/

/-- A **cycle**: so many exchanges of a descent, of which the last comes back to the first basis.
The exchange number `k` leads from the tableau `T k` to the next, and makes `V k` basic in the row
`R k`. -/
structure Cycle (o : Objective) (n : Nat) (T : Nat → Tableau Rat Rat) (V : Nat → VarId)
    (R : Nat → Row Rat) : Prop where
  pos : 0 < n
  exchange : ∀ k < n, Exchange o (T k) (V k) (R k) (T (k + 1))
  closed : ∀ v, (T n).IsBasic v ↔ (T 0).IsBasic v

/-- What each step of a closed sequence keeps holds everywhere if it does somewhere. -/
theorem forall_of_closed {p : Nat → Prop} (hstep : ∀ k < n, p k → p (k + 1))
    (hclosed : p n → p 0) (hk : k ≤ n) (h : p k) : ∀ m ≤ n, p m := by
  have hfrom : ∀ i j, i ≤ j → j ≤ n → p i → p j := by
    intro i j hij
    induction j, hij using Nat.le_induction with
    | base => exact fun _ hi => hi
    | succ j _ ih => exact fun hj hi => hstep j hj (ih (Nat.le_of_succ_le hj) hi)
  have hstart : p 0 := hclosed (hfrom k n hk (Nat.le_refl n) h)
  exact fun m hm => hfrom 0 m (Nat.zero_le m) hm hstart

namespace Cycle

variable {T : Nat → Tableau Rat Rat} {V : Nat → VarId} {R : Nat → Row Rat}

/-- The tableaux of a cycle are in descent. -/
theorem descending (h : Cycle o n T V R) (hk : k ≤ n) : (T k).Descending o := by
  cases k with
  | zero => exact (h.exchange 0 h.pos).before
  | succ k => exact (h.exchange k hk).after

/-- The tableaux of a cycle are linked. -/
theorem linked (h : Cycle o n T V R) (hk : k ≤ n) : (T k).Linked none :=
  (h.descending hk).linked

/-- The tableaux of a cycle say the same. -/
theorem same (h : Cycle o n T V R) (hk : k ≤ n) :
    (∀ v, (T k).kind v = (T 0).kind v) ∧ (∀ a, (T k).Satisfies a ↔ (T 0).Satisfies a) ∧
      ∀ a, (T 0).Satisfies a → ∀ s,
        ((T k).objective o).evalAt s a = ((T 0).objective o).evalAt s a := by
  induction k with
  | zero => exact ⟨fun _ => rfl, fun _ => Iff.rfl, fun _ _ _ => rfl⟩
  | succ k ih =>
      obtain ⟨hkind, hsat, heval⟩ := ih (Nat.le_of_succ_le hk)
      have hex := h.exchange k hk
      exact ⟨fun v => (hex.kind_eq v).trans (hkind v),
        fun a => (hex.satisfies_iff a).trans (hsat a),
        fun a ha s => (hex.evalAt_eq a ((hsat a).mpr ha) s).trans (heval a ha s)⟩

/-! ### Nothing moves -/

/-- At the end the variables stand where they stood. -/
theorem rowValue_last (h : Cycle o n T V R) : (T n).rowValue = (T 0).rowValue := by
  have hlast := h.linked (Nat.le_refl n)
  refine (h.linked (Nat.zero_le n)).eq_rowValue ?_ fun v hv => ?_
  · exact ((h.same (Nat.le_refl n)).2.1 _).mp hlast.satisfies_rowValue
  · exact hlast.rowValue_of_not_isBasic fun hb => hv ((h.closed v).mp hb)

/-- The objective stays where it is. It is never raised, and at the end it is what it was. -/
theorem constant_eq (h : Cycle o n T V R) (hk : k ≤ n) :
    ((T k).objective o).constant.get = ((T 0).objective o).constant.get := by
  have hlast : ((T n).objective o).constant.get = ((T 0).objective o).constant.get := by
    funext s
    have hfirst := h.linked (Nat.zero_le n)
    rw [← (h.linked (Nat.le_refl n)).evalAt_rowValue, ← hfirst.evalAt_rowValue, h.rowValue_last]
    exact (h.same (Nat.le_refl n)).2.2 _ hfirst.satisfies_rowValue s
  have hconstant : ∀ m ≤ n, byTier ((T m).objective o).constant.get ≤
      byTier ((T k).objective o).constant.get :=
    forall_of_closed
      (p := fun m => byTier ((T m).objective o).constant.get ≤
        byTier ((T k).objective o).constant.get)
      (fun m hm hle => le_trans (h.exchange m hm).byTier_constant_le hle)
      (fun hle => by rwa [← hlast]) hk (le_refl _)
  have hback : ∀ m ≤ n, byTier ((T m).objective o).constant.get ≤
      byTier ((T 0).objective o).constant.get :=
    forall_of_closed
      (p := fun m => byTier ((T m).objective o).constant.get ≤
        byTier ((T 0).objective o).constant.get)
      (fun m hm hle => le_trans (h.exchange m hm).byTier_constant_le hle)
      (fun _ => le_refl _) (Nat.zero_le n) (le_refl _)
  exact byTier_injective (le_antisymm (hback k hk) (hconstant 0 (Nat.zero_le n)))

/-- An exchange leaves the objective. -/
theorem constant_succ (h : Cycle o n T V R) (hk : k < n) :
    ((T (k + 1)).objective o).constant.get = ((T k).objective o).constant.get :=
  (h.constant_eq hk).trans (h.constant_eq (Nat.le_of_lt hk)).symm

/-- No variable moves. -/
theorem rowValue_eq (h : Cycle o n T V R) (hk : k ≤ n) : (T k).rowValue = (T 0).rowValue := by
  induction k with
  | zero => rfl
  | succ k ih =>
      exact ((h.exchange k hk).rowValue_eq (h.constant_succ hk)).trans (ih (Nat.le_of_succ_le hk))

/-! ### What enters leaves -/

/-- A variable that is basic at one tableau and not at another enters. -/
theorem exists_entering (h : Cycle o n T V R) (hk : k ≤ n) (hm : m ≤ n)
    (hnot : ¬(T k).IsBasic v) (hb : (T m).IsBasic v) : ∃ i < n, V i = v := by
  by_contra hnone
  refine forall_of_closed (p := fun i => ¬(T i).IsBasic v) (fun i hi hni hb' => ?_)
    (fun hn h0 => hn ((h.closed v).mpr h0)) hk hnot m hm hb
  rcases ((h.exchange i hi).isBasic_iff v).mp hb' with heq | ⟨hb', -⟩
  · exact hnone ⟨i, hi, heq.symm⟩
  · exact hni hb'

/-- A variable that enters leaves. -/
theorem exists_leaving (h : Cycle o n T V R) (hk : k < n) : ∃ m < n, (R m).basic = V k := by
  by_contra hnone
  have hex := h.exchange k hk
  refine hex.not_isBasic (forall_of_closed (p := fun i => (T i).IsBasic (V k))
    (fun i hi hb => ?_) (h.closed _).mp (Nat.succ_le_of_lt hk) ?_ k (Nat.le_of_lt hk))
  · exact ((h.exchange i hi).isBasic_iff _).mpr (.inr ⟨hb, fun heq => hnone ⟨i, hi, heq.symm⟩⟩)
  · exact (hex.isBasic_iff _).mpr (.inl rfl)

/-- A variable that enters is restricted. -/
theorem restricted (h : Cycle o n T V R) (hk : k < n) (hm : m ≤ n) :
    ((T m).kind (V k)).restricted := by
  rw [(h.same hm).1, ← (h.same (Nat.le_of_lt hk)).1]
  exact (h.exchange k hk).restricted

/-- A row that defines a variable which is not basic at another tableau stands at zero. -/
theorem constant_eq_zero (h : Cycle o n T V R) (hk : k ≤ n) (hm : m ≤ n) {r : Row Rat}
    (hr : r ∈ (T m).rows) (hnot : ¬(T k).IsBasic r.basic) : r.expr.constant = 0 := by
  have hvalue : (T m).rowValue r.basic = r.expr.constant := by
    rw [rowValue, (h.linked hm).definition?_eq_some_iff.mpr ⟨hr, rfl⟩]
    rfl
  rw [← hvalue, h.rowValue_eq hm, ← h.rowValue_eq hk]
  exact (h.linked hk).rowValue_of_not_isBasic hnot

/-- Where one variable enters at `T m`, the objective of `T k` has a term which is below zero once
the variable is moved by one. -/
theorem exists_term (h : Cycle o n T V R) (hk : k ≤ n) (hm : m < n) :
    ∃ j ∈ ((T k).objective o).vars,
      byTier (fun s => (((T k).objective o).coefficient j).get s * (T m).moved (V m) 1 j) < 0 := by
  have hex := h.exchange m hm
  have hlinked := h.linked (Nat.le_of_lt hm)
  have hsat := ((h.same (Nat.le_of_lt hm)).2.1 _).mp (hlinked.satisfies_moved (V m) 1)
  have hvalue : (fun s => ((T k).objective o).evalAt s ((T m).moved (V m) 1)) = fun s =>
      ((T k).objective o).constant.get s + (((T m).objective o).coefficient (V m)).get s := by
    funext s
    rw [(h.same hk).2.2 _ hsat, ← (h.same (Nat.le_of_lt hm)).2.2 _ hsat, hlinked.evalAt_moved,
      mul_one, h.constant_eq hk, h.constant_eq (Nat.le_of_lt hm)]
  obtain ⟨term, hterm, hneg⟩ := Goal.exists_byTier_neg (g := (T k).objective o)
    (a := (T m).moved (V m) 1) (by
      rw [hvalue, byTier_add]
      exact add_lt_of_neg_right _ hex.improves)
  have hcoef : ((T k).objective o).coefficient term.1 = term.2 := by
    rw [Goal.coefficient, (Assoc.get?_eq_some_iff ((h.linked hk).tidy_objective o).1.nodup).mpr
      hterm, Option.getD_some]
  refine ⟨term.1, List.mem_map_of_mem hterm, ?_⟩
  rwa [hcoef]

/-- **There is no cycle.** Of all the variables that enter, the one with the highest handle leaves
again elsewhere in the cycle, where a lower one would have had to give way. Where it leaves, some
term of the objective with which it entered falls. Were that the term of a variable that is basic
there, this one would have been chosen to enter or to leave, unless it is the highest itself, whose
vector and row are both below zero; were it the term of the variable that enters, this one would
have been chosen to enter before. -/
theorem false (h : Cycle o n T V R) : False := by
  obtain ⟨k, hk, hmax⟩ := Finset.exists_max_image (Finset.range n) (fun i => (V i).index)
    ⟨0, Finset.mem_range.mpr h.pos⟩
  rw [Finset.mem_range] at hk
  obtain ⟨m, hm, hleave⟩ := h.exists_leaving hk
  have hin := h.exchange k hk
  have hout := h.exchange m hm
  have hkn := Nat.le_of_lt hk
  have hmn := Nat.le_of_lt hm
  have hlinked := h.linked hmn
  have hlower : ∀ i < n, V i ≠ V k → V i < V k := fun i hi hne => by
    refine lt_of_le_of_ne (hmax i (Finset.mem_range.mpr hi)) fun heq => hne ?_
    exact VarId.eq_of_index_eq heq
  obtain ⟨j, hj, hneg⟩ := h.exists_term hkn hm
  have hnot : ¬(T k).IsBasic j := (((h.linked hkn).tidy_objective o).2 j hj).2
  rcases Classical.em ((T m).IsBasic j) with ⟨r, hr, rfl⟩ | hb
  · obtain ⟨i, hi, hij⟩ := h.exists_entering hkn hmn hnot ⟨r, hr, rfl⟩
    have hkind : ((T m).kind r.basic).restricted := hij ▸ h.restricted hi hmn
    rw [hlinked.moved_basic hr, h.constant_eq_zero hkn hmn hr hnot, zero_add, mul_one] at hneg
    by_cases hjk : r.basic = V k
    · obtain rfl := hlinked.eq_of_basic_eq hr hout.mem (hjk.trans hleave.symm)
      have hfalls := hout.falls hkind
      rcases byTier_mul_neg hneg with ⟨-, hpos⟩ | ⟨hpos, -⟩
      · exact absurd hpos (not_lt.mpr (le_of_lt hfalls))
      · rw [hjk] at hpos
        exact absurd hpos (not_lt.mpr (le_of_lt hin.improves))
    · have hlt : r.basic < V k := hij ▸ hlower i hi (hij ▸ hjk)
      rcases byTier_mul_neg hneg with ⟨himproves, -⟩ | ⟨-, hfalls⟩
      · refine hin.least r.basic ?_ himproves hlt
        rw [(h.same hkn).1, ← (h.same hmn).1]
        exact hkind
      · have hzero := h.constant_eq_zero hkn hmn hr hnot
        have hzero' := h.constant_eq_zero hkn hmn hout.mem (hleave ▸ hin.not_isBasic)
        exact hout.first r hr hkind hfalls hzero hzero' (hleave ▸ hlt)
  · by_cases hjm : j = V m
    · rw [hjm, hlinked.moved_self hout.not_isBasic] at hneg
      simp only [mul_one] at hneg
      have hne : V m ≠ V k := fun heq =>
        hout.not_isBasic ⟨R m, hout.mem, hleave.trans heq.symm⟩
      exact hin.least (V m) (h.restricted hm hkn) hneg (hlower m hm hne)
    · rw [hlinked.moved_of_ne hb hjm] at hneg
      simp at hneg

end Cycle

/-! ### Exchanges -/

/-- The tableaux of a minimisation. -/
theorem Descending.exchanges (h : t.Descending o) (hu : exchanges o n t = some u) :
    u.Descending o ∧ t.SameVars u := by
  induction n generalizing t with
  | zero =>
      obtain rfl := Option.some.inj hu
      exact ⟨h, SameVars.refl t⟩
  | succ n ih =>
      obtain ⟨w, hw, hu⟩ := Option.bind_eq_some_iff.mp hu
      obtain ⟨v, dir, r, f, g, henter, hleave, hrow, rfl⟩ := h.linked.of_advance hw
      obtain ⟨_, _, hex⟩ := h.exists_exchange hw
      obtain ⟨hdescending, hsame⟩ := ih hex.after hu
      obtain ⟨hr, -⟩ := h.linked.row?_eq_some_iff.mp hrow
      have hcounted : r ∈ (t.count f).rows := (rows_count t f).symm ▸ hr
      exact ⟨hdescending, (((SameVars.count f).trans
        ((h.linked.count f).sameVars_redefine hcounted)).trans (SameVars.count g)).trans hsame⟩

/-- The exchanges of a minimisation **never come back** to a basis. -/
theorem Descending.ne_basis (h : t.Descending o) {i j : Nat} (hij : i < j)
    (hu : Tableau.exchanges o i t = some u) (hw : Tableau.exchanges o j t = some w) :
    ¬∀ v, u.IsBasic v ↔ w.IsBasic v := by
  intro hbasis
  obtain ⟨n, rfl⟩ := Nat.exists_eq_add_of_lt hij
  rw [Nat.add_assoc, exchanges_add, hu, Option.bind_some] at hw
  have hdescending := (h.exchanges hu).1
  have hT : ∀ k ≤ n + 1, Tableau.exchanges o k u =
      some ((Tableau.exchanges o k u).getD u) := by
    intro k hk
    obtain ⟨x, hx⟩ := exists_exchanges_of_le hk hw
    rw [hx, Option.getD_some]
  have hex : ∀ k, ∃ v r, k < n + 1 → Exchange o ((Tableau.exchanges o k u).getD u) v r
      ((Tableau.exchanges o (k + 1) u).getD u) := by
    intro k
    by_cases hk : k < n + 1
    · have hstep := (exchanges_succ o k u).symm.trans (hT (k + 1) hk)
      rw [hT k (Nat.le_of_lt hk), Option.bind_some] at hstep
      obtain ⟨v, r, hex⟩ :=
        (hdescending.exchanges (hT k (Nat.le_of_lt hk))).1.exists_exchange hstep
      exact ⟨v, r, fun _ => hex⟩
    · exact ⟨⟨0⟩, ⟨⟨0⟩, ⟨0⟩, LinExpr.zero⟩, fun hlt => absurd hlt hk⟩
  choose V R hex using hex
  refine Cycle.false (n := n + 1) ⟨Nat.succ_pos n, hex, fun v => ?_⟩
  rw [hw]
  exact (hbasis v).symm

/-- There are only so many bases, so **so many exchanges are never made**. A basis is a set of
handles below the high-water mark, since a basic variable is one of those that were live at the
start. -/
theorem Descending.exchanges_eq_none (h : t.Descending o) :
    Tableau.exchanges o (2 ^ t.highWater) t = none := by
  classical
  by_contra hne
  obtain ⟨last, hlast⟩ := Option.ne_none_iff_exists'.mp hne
  have hT : ∀ k ≤ 2 ^ t.highWater, Tableau.exchanges o k t =
      some ((Tableau.exchanges o k t).getD t) := by
    intro k hk
    obtain ⟨x, hx⟩ := exists_exchanges_of_le hk hlast
    rw [hx, Option.getD_some]
  let basis (k : Nat) : Finset Nat := (Finset.range t.highWater).filter fun i =>
    ((Tableau.exchanges o k t).getD t).IsBasic ⟨i⟩
  have hcard : ((Finset.range t.highWater).powerset).card <
      (Finset.range (2 ^ t.highWater + 1)).card := by
    rw [Finset.card_powerset, Finset.card_range, Finset.card_range]
    exact Nat.lt_succ_self _
  obtain ⟨i, hi, j, hj, hij, hbasis⟩ := Finset.exists_ne_map_eq_of_card_lt_of_maps_to hcard
    (f := basis) fun k _ => Finset.mem_powerset.mpr (Finset.filter_subset _ _)
  rw [Finset.mem_range, Nat.lt_succ_iff] at hi hj
  have hmem : ∀ k ≤ 2 ^ t.highWater, ∀ v, ((Tableau.exchanges o k t).getD t).IsBasic v ↔
      v.index ∈ basis k := by
    intro k hk v
    obtain ⟨hdescending, hsame⟩ := h.exchanges (hT k hk)
    refine ⟨fun hb => Finset.mem_filter.mpr ⟨Finset.mem_range.mpr ?_, hb⟩,
      fun hv => (Finset.mem_filter.mp hv).2⟩
    have hlive := (hsame.isLive_iff v).mp (hdescending.linked.isLive_of_isBasic hb)
    exact VariablePool.lt_highWater_of_isLive hlive
  have hsame : ∀ v, ((Tableau.exchanges o i t).getD t).IsBasic v ↔
      ((Tableau.exchanges o j t).getD t).IsBasic v := fun v => by
    rw [hmem i hi, hmem j hj, hbasis]
  rcases Nat.lt_or_gt_of_ne hij with hlt | hgt
  · exact h.ne_basis hlt (hT i hi) (hT j hj) hsame
  · exact h.ne_basis hgt (hT j hj) (hT i hi) fun v => (hsame v).symm

/-! ### Limits -/

/-- A tableau with a limit on the exchanges of a minimisation. -/
def withLimit (t : Tableau Rat Rat) (limit : Nat) : Tableau Rat Rat :=
  { t with settings := { t.settings with maxIterations := some limit } }

/-- The limit of exchanges is no obstacle to a descent. -/
theorem Descending.withLimit (h : t.Descending o) (limit : Nat) :
    (t.withLimit limit).Descending o := by
  obtain ⟨hlinked, hnormal, hfeasible, hnonneg⟩ := h
  have hobjective : (t.withLimit limit).objective o = t.objective o := by cases o <;> rfl
  refine ⟨hlinked.of_eq rfl rfl rfl rfl, hnormal, hfeasible, fun a ha hrespects s => ?_⟩
  rw [hobjective]
  exact hnonneg a ha hrespects s

/-- A descent that may make so many exchanges **succeeds**. -/
theorem Descending.minimise_withLimit (h : t.Descending o) {limit : Nat}
    (hlimit : 2 ^ t.highWater ≤ limit) : ((t.withLimit limit).minimise o).1 = .ok () := by
  have hdescending := h.withLimit limit
  rcases descend_cases o limit limit (t.withLimit limit) with
    ⟨hok, -⟩ | ⟨v, dir, -, henter, hleave⟩ | ⟨-, hmade⟩
  · exact hok
  · obtain ⟨id, hid⟩ := hdescending.minimise.descending.exists_leaving henter
    have hnone : ((t.withLimit limit).minimise o).2.leaving? v dir = none := hleave
    rw [hnone] at hid
    exact absurd hid (by simp)
  · obtain ⟨x, hx⟩ := exists_exchanges_of_le hlimit hmade
    have hnone := hdescending.exchanges_eq_none
    have hslots : (t.withLimit limit).highWater = t.highWater := rfl
    rw [hslots, hx] at hnone
    exact absurd hnone (by simp)

end Tableau

/-! ### Solvers -/

namespace Solver

variable {s : Solver Rat Rat}

/-- The minimisations of a solver **begin** at its tableau for the goal, and at a measured draft for
phase one. An insertion starts from the solver's tableau, or from that with a variable unpinned if
the variable is to be held. -/
inductive Begins (s : Solver Rat Rat) : Objective → Tableau Rat Rat → Prop
  | goal (f : Counters → Counters) : s.Begins .goal (s.tableau.count f)
  | phaseOne (t : Tableau Rat Rat) (request : Request Rat) (relation : Relation)
      (f : Counters → Counters)
      (hstart : t = s.tableau ∨ ∃ v, t = s.tableau.modifyVar v Variable.unpin)
      (hlive : ∀ v ∈ request.expr.vars, t.vars.isLive v)
      (hsubject : (t.draft request relation).2.subject? (t.draft request relation).1 = none) :
      s.Begins .phaseOne
        (((t.draft request relation).2.count f).measured (t.draft request relation).1)

/-- The minimisations of a reachable solver whose tableau is basic-feasible are descents. -/
theorem Reachable.descending (h : s.Reachable) (hfeasible : s.tableau.BasicFeasible)
    {o : Objective} {t : Tableau Rat Rat} (hbegins : s.Begins o t) : t.Descending o := by
  have hregular := h.regular
  cases hbegins with
  | goal f =>
      exact (h.balanced.descending hregular.wellFormed.linked hregular.normal hfeasible).count f
  | phaseOne t request relation f hstart hlive hsubject =>
      have hlinked : t.Linked none ∧ t.Normal ∧ t.BasicFeasible := by
        rcases hstart with rfl | ⟨v, rfl⟩
        · exact ⟨hregular.wellFormed.linked, hregular.normal, hfeasible⟩
        · have hunpinned := (Tableau.closed_regular fun _ => True).unpin s.tableau v hregular
          refine ⟨hunpinned.wellFormed.linked, hunpinned.normal,
            hfeasible.of_rows hregular.wellFormed.linked (fun _ hr => hr) fun w _ => ?_⟩
          exact Tableau.kind_modifyVar s.tableau v (f := Variable.unpin) (fun _ => rfl) w
      obtain ⟨hl, hn, hf⟩ := hlinked
      exact (hf.draft hl request relation).descending_measured
        (hl.admissible hn hlive relation) (hl.stated hlive relation).constant_nonneg hsubject f

/-- **Minimisations halt.** In a reachable solver whose tableau is basic-feasible, the exchanges of
a minimisation, of the goal or in phase one, never come back to a basis; and if the limit on
exchanges is not below a certain number, the minimisation succeeds. -/
theorem Reachable.minimisation_halts (h : s.Reachable) (hfeasible : s.tableau.BasicFeasible)
    {o : Objective} {t : Tableau Rat Rat} (hbegins : s.Begins o t) :
    (∀ i j u w, i < j → Tableau.exchanges o i t = some u → Tableau.exchanges o j t = some w →
      ¬∀ v, u.IsBasic v ↔ w.IsBasic v) ∧
    ∃ bound, ∀ limit, bound ≤ limit → ((t.withLimit limit).minimise o).1 = .ok () := by
  have hdescending := h.descending hfeasible hbegins
  exact ⟨fun _ _ _ _ hij hu hw => hdescending.ne_basis hij hu hw, 2 ^ t.highWater,
    fun _ hlimit => hdescending.minimise_withLimit hlimit⟩

/-- A solver in which a variable is at least one. -/
def floored : Solver Rat Rat :=
  (empty {}).run [.declare .external "x", .add (pinRequest ⟨0⟩ (1 : Rat)) .ge]

/-- That the variable be at least two is measured by an artificial variable, exchanges are needed to
bring it to zero, and they come to an end. -/
theorem minimisation_halts_of_floored :
    let d := floored.tableau.draft (pinRequest ⟨0⟩ (2 : Rat)) .ge
    let t := (d.2.count fun c =>
      { c with artificialConstraints := c.artificialConstraints + 1 }).measured d.1
    (t.entering? .phaseOne).isSome ∧
      ∃ bound, ∀ limit, bound ≤ limit → ((t.withLimit limit).minimise .phaseOne).1 = .ok () := by
  intro d t
  refine ⟨by decide +kernel, ?_⟩
  have hbegins : floored.Begins .phaseOne t :=
    .phaseOne floored.tableau _ _ _ (.inl rfl) (by decide +kernel) (by decide +kernel)
  exact (Reachable.minimisation_halts ⟨_, _, rfl⟩ (by decide +kernel) hbegins).2

end Solver

end LexSimplex
