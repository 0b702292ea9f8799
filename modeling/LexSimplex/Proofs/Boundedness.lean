import LexSimplex.Proofs.Cycles
import LexSimplex.Proofs.Faults

/-!
# Objectives that are bounded

No minimisation of a reachable solver ever finds that nothing stops the variable which enters, not
even where the tableau is not basic-feasible. What a descent has from feasibility comes from the
objectives here. Both **rise with the restricted variables**: the goal is a penalty of error
variables, and the objective of phase one is the value of a slack. A variable that lowers such an
objective must bring some restricted variable down, and the row of that variable stops it.

## Main definitions

* `Tableau.Rising`: an objective rises with the restricted variables.

## Main results

* `Tableau.Rising.exists_leaving`: a row stops the variable that enters.
* `Solver.Reachable.never_unbounded`: no command is ever answered with an unbounded variable.
-/

namespace LexSimplex

namespace Tableau

variable {o : Objective} {t u : Tableau Rat Rat} {r : Row Rat} {v : VarId} {dir : Direction}
  {n : Nat}

/-- An objective is **rising** if it is at no tier lower in one solution than in another where no
restricted variable is higher. -/
structure Rising (o : Objective) (t : Tableau Rat Rat) : Prop where
  linked : t.Linked none
  normal : t.Normal
  mono : ∀ a b, t.Satisfies a → t.Satisfies b → (∀ w, (t.kind w).restricted → a w ≤ b w) →
    ∀ s, (t.objective o).evalAt s a ≤ (t.objective o).evalAt s b

/-! ### The row that stops a variable -/

/-- A variable that enters lowers the objective at some tier, and is external where it moves
down. -/
theorem Linked.lowers_of_entering? (h : t.Linked none) (henter : t.entering? o = some (v, dir)) :
    ¬t.IsBasic v ∧ ((t.kind v).restricted → 0 ≤ (dir.sign : Rat)) ∧
      ∃ s, ((t.objective o).coefficient v).get s * dir.sign < 0 := by
  obtain ⟨vector, hmem, himp⟩ := exists_of_entering?_eq_some henter
  obtain ⟨htidy, hterm⟩ := h.tidy_objective o
  have hcoef : (t.objective o).coefficient v = vector := by
    rw [Goal.coefficient, (Assoc.get?_eq_some_iff htidy.nodup).mpr hmem, Option.getD_some]
  refine ⟨(hterm v (List.mem_map_of_mem hmem)).2, fun hk => ?_, ?_⟩
  · have hne : t.kind v ≠ .external := fun heq => absurd (heq ▸ hk) (by simp [Kind.restricted])
    obtain ⟨-, rfl⟩ := improving_of_ne_external himp hne
    exact zero_le_one
  · rw [hcoef]
    rcases vector.sign_cases with ⟨hs, -⟩ | ⟨hs, hneg⟩ | ⟨hs, hpos⟩
    · rw [improving, hs] at himp
      cases hk : t.kind v <;> simp [hk] at himp
    · obtain ⟨s, hneg⟩ := exists_neg_of_byTier_neg hneg
      have hup : dir = .up := by
        rw [improving, hs] at himp
        cases hk : t.kind v <;> simp [hk] at himp <;> exact himp.symm
      exact ⟨s, by rwa [hup, Direction.sign, mul_one]⟩
    · have hopposite : byTier (fun s => -vector.get s) < 0 := by
        rw [byTier_neg]
        exact neg_lt_zero.mpr hpos
      obtain ⟨s, hneg⟩ := exists_neg_of_byTier_neg hopposite
      have hdown : dir = .down := by
        rw [improving, hs] at himp
        cases hk : t.kind v <;> simp [hk] at himp
        exact himp.symm
      exact ⟨s, by rwa [hdown, Direction.sign, mul_neg_one]⟩

/-- A restricted row that does not stop a variable does not fall with it. -/
theorem Linked.nonneg_of_leaving?_eq_none (h : t.Linked none) (hleave : t.leaving? v dir = none)
    (hr : r ∈ t.rows) (hk : (t.kind r.basic).restricted) :
    0 ≤ r.expr.coefficient v * dir.sign := by
  by_cases hv : v ∈ r.expr.vars
  · have hnil : t.blockers v dir = [] :=
      Blocker.first?_eq_none_iff.mp (Option.map_eq_none_iff.mp hleave)
    have hfree : t.blocker? v dir r = none :=
      List.filterMap_eq_nil_iff.mp hnil r (h.mem_referring.mpr ⟨hr, hv⟩)
    rw [blocker?_of_restricted hk] at hfree
    by_contra hneg
    rw [if_pos (not_le.mp hneg)] at hfree
    exact absurd hfree (by simp)
  · rw [LinExpr.coefficient_of_notMem hv, zero_mul]

/-- A rising objective is **bounded**: a row stops the variable that enters. If nothing stopped the
variable, moving it by one would lower no restricted variable. -/
theorem Rising.exists_leaving (h : t.Rising o) (henter : t.entering? o = some (v, dir)) :
    ∃ id, t.leaving? v dir = some id := by
  rw [← Option.isSome_iff_exists, ← Option.ne_none_iff_isSome]
  intro hleave
  obtain ⟨hbasic, hgrows, s, hlowers⟩ := h.linked.lowers_of_entering? henter
  have hraised : ∀ w, (t.kind w).restricted → t.moved v 0 w ≤ t.moved v dir.sign w := by
    intro w hk
    cases hdef : t.definition? w with
    | some r =>
        obtain ⟨hr, rfl⟩ := h.linked.definition?_eq_some_iff.mp hdef
        rw [h.linked.moved_basic hr, h.linked.moved_basic hr, mul_zero, add_zero]
        exact le_add_of_nonneg_right (h.linked.nonneg_of_leaving?_eq_none hleave hr hk)
    | none =>
        have hw := h.linked.definition?_eq_none_iff.mp hdef
        by_cases hwv : w = v
        · rw [hwv, h.linked.moved_self hbasic, h.linked.moved_self hbasic]
          exact hgrows (hwv ▸ hk)
        · rw [h.linked.moved_of_ne hw hwv, h.linked.moved_of_ne hw hwv]
  have hmono := h.mono _ _ (h.linked.satisfies_moved v 0) (h.linked.satisfies_moved v dir.sign)
    hraised s
  rw [h.linked.evalAt_moved, h.linked.evalAt_moved] at hmono
  linarith

/-! ### What exchanges keep -/

/-- Counting leaves an objective rising. -/
theorem Rising.count (h : t.Rising o) (f : Counters → Counters) : (t.count f).Rising o := by
  have hrows := rows_count t f
  refine ⟨h.linked.count f, h.normal.of_rows hrows, fun a b ha hb hab s => ?_⟩
  simp only [kind_count] at hab
  rw [objective_count]
  exact h.mono a b ((satisfies_congr hrows).mp ha) ((satisfies_congr hrows).mp hb) hab s

/-- An exchange leaves an objective rising. -/
theorem Rising.redefine (h : t.Rising o) (hr : r ∈ t.rows) (hv : v ∈ r.expr.vars) :
    (t.redefine r v).Rising o := by
  have hsat : ∀ a, (t.redefine r v).Satisfies a → t.Satisfies a :=
    fun a => (h.linked.satisfies_redefine h.normal hr hv).mp
  refine ⟨h.linked.redefine hr hv, h.linked.normal_redefine h.normal hr, fun a b ha hb hab s => ?_⟩
  simp only [(h.linked.sameVars_redefine hr).kind_eq] at hab
  rw [h.linked.evalAt_redefine h.normal hr hv o (hsat a ha),
    h.linked.evalAt_redefine h.normal hr hv o (hsat b hb)]
  exact h.mono a b (hsat a ha) (hsat b hb) hab s

/-- A minimisation keeps an objective rising. -/
theorem Rising.minimise (h : t.Rising o) : (t.minimise o).2.Rising o := by
  refine minimise_induction (p := Rising o) (fun _ f hu => hu.count f) ?_ h
  intro u v dir r hu _ hleave hrow
  obtain ⟨hr, hv⟩ := hu.linked.mem_of_leaving? hleave hrow
  exact hu.redefine hr hv

/-- So do any number of exchanges. -/
theorem Rising.exchanges (h : t.Rising o) (hu : Tableau.exchanges o n t = some u) : u.Rising o := by
  induction n generalizing t with
  | zero =>
      obtain rfl := Option.some.inj hu
      exact h
  | succ n ih =>
      obtain ⟨w, hw, hu⟩ := Option.bind_eq_some_iff.mp hu
      obtain ⟨v, dir, r, f, g, -, hleave, hrow, rfl⟩ := h.linked.of_advance hw
      obtain ⟨hr, hv⟩ := h.linked.mem_of_leaving? hleave hrow
      have hcounted : r ∈ (t.count f).rows := (rows_count t f).symm ▸ hr
      exact ih (((h.count f).redefine hcounted hv).count g) hu

/-- The minimisation of a rising objective succeeds or reaches the limit. -/
theorem Rising.minimise_ne_unbounded (h : t.Rising o) (v : VarId) :
    (t.minimise o).1 ≠ .error (.unbounded v) := by
  intro hunbounded
  rcases descend_cases o _ _ t with ⟨hok, -⟩ | ⟨w, dir, -, henter, hleave⟩ | ⟨hlimit, -⟩
  · exact absurd (hunbounded.symm.trans hok) (by simp)
  · obtain ⟨id, hid⟩ := h.minimise.exists_leaving henter
    exact absurd (hleave.symm.trans hid) (by simp)
  · exact absurd (hunbounded.symm.trans hlimit) (by simp)

/-! ### The objectives -/

/-- The penalty is no lower where no restricted variable is: only error variables have a price. -/
theorem penalty_mono {a b : Assignment} (hab : ∀ w, (t.kind w).restricted → a w ≤ b w)
    (s : Strength) : (t.penalty a).get s ≤ (t.penalty b).get s := by
  rw [penalty, penalty, TierVector.get_ofFn, TierVector.get_ofFn]
  refine Finset.sum_le_sum fun i _ => ?_
  obtain ⟨hnonneg, hzero⟩ := t.price_nonneg ⟨i⟩ s
  by_cases hk : t.kind ⟨i⟩ = .error
  · exact mul_le_mul_of_nonneg_left (hab ⟨i⟩ (by rw [hk]; rfl)) hnonneg
  · rw [hzero hk, zero_mul, zero_mul]

/-- The goal of a balanced tableau is rising. -/
theorem Balanced.rising (h : t.Balanced) (hl : t.Linked none) (hn : t.Normal) :
    t.Rising .goal := by
  refine ⟨hl, hn, fun a b ha hb hab s => ?_⟩
  have hvalue : ∀ c, t.Satisfies c → (t.objective .goal).evalAt s c = (t.penalty c).get s :=
    fun c hc => h.evalAt hc s
  rw [hvalue a ha, hvalue b hb]
  exact penalty_mono hab s

/-- The objective of phase one is rising: it is the value of the artificial variable. -/
theorem Measures.rising {d : Draft Rat} {art : VarId} (h : Measures t d art u) :
    u.Rising .phaseOne := by
  refine ⟨h.linked, h.normal, fun a b ha hb hab s => ?_⟩
  rw [h.objective s a ha, h.objective s b hb]
  split
  · exact hab art (by rw [h.kind_eq]; rfl)
  · exact le_refl 0

variable {request : Request Rat} {relation : Relation}

/-- The draft of any request for live variables is measured by a rising objective. -/
theorem Linked.rising_measured (h : t.Linked none) (hn : t.Normal)
    (hlive : ∀ v ∈ request.expr.vars, t.vars.isLive v) (relation : Relation)
    (f : Counters → Counters) :
    (((t.draft request relation).2.count f).measured (t.draft request relation).1).Rising
      .phaseOne :=
  ((h.admissible hn hlive relation).count f).measurable.measures.rising

/-- An insertion never finds a variable that nothing stops. -/
theorem Linked.insert_ne_unbounded (h : t.Linked none) (hn : t.Normal) (request : Request Rat)
    (relation : Relation) (v : VarId) :
    (t.insert request relation).1 ≠ .error (.unbounded v) := by
  refine insert_cases (p := fun result => result.1 ≠ .error (.unbounded v)) ?_ ?_ ?_ ?_
  · exact fun w _ _ => by simp
  · intro fault hlive hplaced heq
    obtain rfl : fault = .unbounded v := Except.error.inj heq
    refine absurd hplaced ?_
    refine place_cases (p := fun result => result.1 ≠ .error (.unbounded v)) ?_ ?_ ?_ ?_ ?_ ?_
    · exact fun _ _ _ hne => hne
    · exact fun _ _ => by simp
    · exact fun _ _ _ _ => by simp
    · exact fun _ => by simp
    · exact fun _ _ _ => by simp
    · intro f _ hmap
      have hne := (h.rising_measured hn hlive relation f).minimise_ne_unbounded v
      cases houtcome : ((((t.draft request relation).2.count f).measured
          (t.draft request relation).1).minimise .phaseOne).1 with
      | ok _ => simp [houtcome, Except.map] at hmap
      | error e =>
          rw [houtcome] at hne hmap
          exact hne (congrArg Except.error (Except.error.inj hmap))
  · exact fun _ _ => by simp
  · exact fun _ _ _ _ => by simp

end Tableau

namespace Solver

variable {s : Solver Rat Rat}

/-- The minimisations of a reachable solver are of rising objectives. -/
theorem Reachable.rising (h : s.Reachable) {o : Objective} {t : Tableau Rat Rat}
    (hbegins : s.Begins o t) : t.Rising o := by
  have hregular := h.regular
  cases hbegins with
  | goal f => exact (h.balanced.rising hregular.wellFormed.linked hregular.normal).count f
  | phaseOne t request relation f hstart hlive hsubject =>
      have hlinked : t.Linked none ∧ t.Normal := by
        rcases hstart with rfl | ⟨v, rfl⟩
        · exact ⟨hregular.wellFormed.linked, hregular.normal⟩
        · have hunpinned := (Tableau.closed_regular fun _ => True).unpin s.tableau v hregular
          exact ⟨hunpinned.wellFormed.linked, hunpinned.normal⟩
      exact hlinked.1.rising_measured hlinked.2 hlive relation f

/-- **Nothing is unbounded.** No command to a reachable solver is answered with an unbounded
variable; and in its minimisations, of the goal or in phase one, a row stops each variable that
enters. -/
theorem Reachable.never_unbounded (h : s.Reachable) :
    (∀ c v, (s.perform c).1 ≠ .error (.unbounded v)) ∧
      ∀ {o t}, s.Begins o t → ∀ n u, Tableau.exchanges o n t = some u →
        ∀ v dir, u.entering? o = some (v, dir) → ∃ id, u.leaving? v dir = some id := by
  refine ⟨fun c v hfault => ?_, fun hbegins n u hu v dir henter => ?_⟩
  · have hkeeping : Keeping (fun _ => True) (fun t => t.Regular ∧ t.Balanced) s :=
      ⟨⟨h.regular, h.balanced⟩, fun _ _ => trivial⟩
    have hraises : Tableau.Raises (fun _ => True)
        (fun t : Tableau Rat Rat => t.Regular ∧ t.Balanced) (· ≠ .unbounded v) := by
      refine ⟨fun t request relation fault _ ht hinsert => ?_, by simp, by simp, by simp⟩
      rintro rfl
      exact ht.1.wellFormed.linked.insert_ne_unbounded ht.1.normal request relation v hinsert
    refine hkeeping.fault_perform (Tableau.closed_balanced _) hraises ?_ c hfault rfl
    rintro t fault ht hminimise rfl
    exact (ht.2.rising ht.1.wellFormed.linked ht.1.normal).minimise_ne_unbounded v hminimise
  · exact ((h.rising hbegins).exchanges hu).exists_leaving henter

/-- A solver in which a removal has moved the marker of a redundant equality away from zero. -/
def displaced : Solver Rat Rat :=
  (empty {}).run
    [.declare .external "x", .arrange (.value ⟨0⟩ 5) .fixed, .arrange (.value ⟨0⟩ 5) .fixed,
      .add (pinRequest ⟨0⟩ (0 : Rat)) .ge, .remove ⟨0⟩, .arrange (.value ⟨0⟩ 2) .medium]

/-- Its tableau is not basic-feasible, and still a row stops the variable that enters. -/
theorem never_unbounded_of_displaced :
    let t := displaced.tableau.count fun c => { c with optimize := c.optimize + 1 }
    ¬t.BasicFeasible ∧ t.entering? .goal = some (⟨3⟩, .up) ∧
      (∃ id, t.leaving? ⟨3⟩ .up = some id) ∧
      ∀ v, (displaced.perform .optimize).1 ≠ .error (.unbounded v) := by
  intro t
  have henter : t.entering? .goal = some (⟨3⟩, .up) := by decide +kernel
  obtain ⟨hfault, hleave⟩ := Reachable.never_unbounded (s := displaced) ⟨_, _, rfl⟩
  exact ⟨by decide +kernel, henter, hleave (.goal _) 0 t rfl _ _ henter, hfault .optimize⟩

end Solver

end LexSimplex
