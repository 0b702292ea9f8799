import LexSimplex.Proofs.Descent

/-!
# What optimisation reaches

The goal of a solver is a penalty of nine tiers, and optimisation brings it to its least value in
lexicographic order: no assignment that solves the rows and respects the kinds of the variables has
a lower penalty, and the values that the rows stand at have just this one. If the limit on exchanges
is reached before, the goal is where it was or lower.

## Main definitions

* `Tableau.IsLeastPenalty`: the least penalty of the solutions that respect the kinds.

## Main results

* `Solver.Reachable.optimize_least`: what optimisation keeps and what it reaches.
-/

namespace LexSimplex

namespace Tableau

variable {t : Tableau Rat Rat} {a : Assignment}

/-- A vector is the **least penalty** of a tableau if it is that of a solution which respects the
kinds, and no such solution has a lower one. -/
structure IsLeastPenalty (t : Tableau Rat Rat) (x : TierVector Rat) : Prop where
  attained : ∃ a, t.Satisfies a ∧ t.Respects a ∧ t.penalty a = x
  atMost : ∀ a, t.Satisfies a → t.Respects a → x.AtMost (t.penalty a)

/-- Counting leaves the penalty. -/
theorem penalty_count (t : Tableau Rat Rat) (f : Counters → Counters) (a : Assignment) :
    (t.count f).penalty a = t.penalty a :=
  penalty_congr (price_of_vars_eq (vars_count t f)) a

/-- The counters do not matter to the least penalty. -/
theorem IsLeastPenalty.of_count {f : Counters → Counters} {x : TierVector Rat}
    (h : (t.count f).IsLeastPenalty x) : t.IsLeastPenalty x := by
  have hsat := fun a => satisfies_congr (a := a) (rows_count t f)
  have hrespects := fun a => respects_congr (a := a) (kind_count t f)
  obtain ⟨⟨a, ha, ha', hpenalty⟩, hatMost⟩ := h
  refine ⟨⟨a, (hsat a).mp ha, (hrespects a).mp ha', ?_⟩, fun b hb hb' => ?_⟩
  · rwa [penalty_count] at hpenalty
  · rw [← penalty_count t f]
    exact hatMost b ((hsat b).mpr hb) ((hrespects b).mpr hb')

/-- Settling values changes no kind. -/
theorem kind_settle (t : Tableau Rat Rat) (v : VarId) : t.settle.kind v = t.kind v := by
  rw [kind, kind, map_settle t v fun _ _ => rfl]

/-- The goal of a balanced tableau stands at the penalty of the row constants. -/
theorem Balanced.penalty_rowValue (h : t.Balanced) (hl : t.Linked none) :
    t.penalty t.rowValue = t.goal.constant :=
  TierVector.ext_get fun s =>
    (h.evalAt hl.satisfies_rowValue s).symm.trans (hl.evalAt_rowValue .goal s)

/-- A minimisation of the goal that succeeds reaches the least penalty. -/
theorem Balanced.isLeastPenalty_minimise (h : t.Balanced) (hl : t.Linked none) (hn : t.Normal)
    (hf : t.BasicFeasible) (hok : (t.minimise .goal).1 = .ok ()) :
    t.IsLeastPenalty (t.minimise .goal).2.goal.constant := by
  have hdescending := h.descending hl hn hf
  obtain ⟨hleft, hkind, hsat, -, -⟩ := hdescending.minimise
  have hbalanced : (t.minimise .goal).2.Balanced :=
    Charges.balanced (Charges.minimise h hl hn .goal) (hl.sameVars_minimise .goal).price_eq
  refine ⟨⟨(t.minimise .goal).2.rowValue, ?_, ?_, ?_⟩, fun a ha hrespects => ?_⟩
  · exact (hsat _).mp hleft.linked.satisfies_rowValue
  · exact (respects_congr hkind).mp (hleft.feasible.respects_rowValue hleft.linked)
  · rw [← hbalanced.penalty_rowValue hleft.linked]
    exact (penalty_congr (hl.sameVars_minimise .goal).price_eq _).symm
  · rcases hdescending.minimise_cases with ⟨-, hleast⟩ | ⟨limit, hlimit⟩
    · have hvalue : (fun s => (t.objective .goal).evalAt s a) = (t.penalty a).get :=
        funext fun s => h.evalAt ha s
      exact TierVector.atMost_iff.mpr (hvalue ▸ hleast a ha hrespects)
    · rw [hok] at hlimit
      exact absurd hlimit (by simp)

end Tableau

namespace Solver

variable {s : Solver Rat Rat}

/-- Optimisation is a minimisation of the goal, and settles the values if it succeeds. -/
theorem optimize_eq (s : Solver Rat Rat) :
    let t := s.tableau.count fun c => { c with optimize := c.optimize + 1 }
    s.optimize.1 = (t.minimise .goal).1 ∧ (s.optimize.2.tableau = (t.minimise .goal).2 ∨
      s.optimize.2.tableau = (t.minimise .goal).2.settle) := by
  intro t
  rw [optimize]
  split
  · rename_i heq
    have hsplit : t.minimise .goal = _ := heq
    rw [hsplit]
    exact ⟨rfl, .inr rfl⟩
  · rename_i heq
    have hsplit : t.minimise .goal = _ := heq
    rw [hsplit]
    exact ⟨rfl, .inl rfl⟩

/-- Counting an optimisation leaves the tableau of a reachable solver regular and balanced. -/
theorem Reachable.balanced_count (h : s.Reachable) (f : Counters → Counters) :
    (s.tableau.count f).Linked none ∧ (s.tableau.count f).Normal ∧
      (s.tableau.count f).Balanced :=
  ⟨h.regular.wellFormed.linked.count f,
    h.regular.normal.of_rows (Tableau.rows_count s.tableau f),
    Tableau.Charges.balanced (Tableau.Charges.count h.balanced f)
      (Tableau.price_of_vars_eq (Tableau.vars_count _ f))⟩

/-- Settling the values changes neither the rows nor the goal that the minimisation leaves. -/
theorem optimize_keeps (s : Solver Rat Rat) :
    let t := s.tableau.count fun c => { c with optimize := c.optimize + 1 }
    s.optimize.2.tableau.rows = (t.minimise .goal).2.rows ∧
      s.optimize.2.tableau.goal = (t.minimise .goal).2.goal ∧
      ∀ v, s.optimize.2.tableau.kind v = (t.minimise .goal).2.kind v := by
  intro t
  rcases s.optimize_eq.2 with heq | heq
  · rw [heq]
    exact ⟨rfl, rfl, fun _ => rfl⟩
  · rw [heq]
    exact ⟨rfl, rfl, Tableau.kind_settle _⟩

/-- An optimisation ends at the least penalty, or reaches the limit on exchanges. -/
theorem Reachable.optimize_verdict (h : s.Reachable) (hfeasible : s.tableau.BasicFeasible) :
    (s.optimize.1 = .ok () ∧ s.tableau.IsLeastPenalty s.optimize.2.tableau.goal.constant) ∨
      ∃ limit, s.optimize.1 = .error (.iterationLimit limit) := by
  obtain ⟨houtcome, -⟩ := s.optimize_eq
  obtain ⟨-, hgoal, -⟩ := s.optimize_keeps
  set f := fun c : Counters => { c with optimize := c.optimize + 1 }
  obtain ⟨hlinked, hnormal, hbalanced⟩ := h.balanced_count f
  rcases (hbalanced.descending hlinked hnormal (hfeasible.count f)).minimise_cases with
    ⟨hok, -⟩ | ⟨limit, hlimit⟩
  · refine .inl ⟨houtcome.trans hok, ?_⟩
    rw [hgoal]
    exact (hbalanced.isLeastPenalty_minimise hlinked hnormal (hfeasible.count f) hok).of_count
  · exact .inr ⟨limit, houtcome.trans hlimit⟩

/-- **Optimisation.** In a reachable solver whose tableau is basic-feasible, optimisation keeps the
solutions of the tableau and leaves it basic-feasible, and the goal is at most what it was. It
succeeds with the goal at the least penalty, or reaches the limit on exchanges. -/
theorem Reachable.optimize_least (h : s.Reachable) (hfeasible : s.tableau.BasicFeasible) :
    (∀ a, s.optimize.2.tableau.Satisfies a ↔ s.tableau.Satisfies a) ∧
      s.optimize.2.tableau.BasicFeasible ∧
      s.optimize.2.tableau.goal.constant.AtMost s.tableau.goal.constant ∧
      ((s.optimize.1 = .ok () ∧
          s.tableau.IsLeastPenalty s.optimize.2.tableau.goal.constant) ∨
        ∃ limit, s.optimize.1 = .error (.iterationLimit limit)) := by
  obtain ⟨hrows, hgoal, hkind⟩ := s.optimize_keeps
  set f := fun c : Counters => { c with optimize := c.optimize + 1 }
  obtain ⟨hlinked, hnormal, hbalanced⟩ := h.balanced_count f
  obtain ⟨hleft, -, hsat, -, hle⟩ :=
    (hbalanced.descending hlinked hnormal (hfeasible.count f)).minimise
  refine ⟨fun a => ?_, ?_, ?_, h.optimize_verdict hfeasible⟩
  · rw [Tableau.satisfies_congr hrows, hsat, Tableau.satisfies_congr (Tableau.rows_count _ f)]
  · exact hleft.feasible.of_rows hleft.linked (fun r hr => hrows ▸ hr) fun v _ => hkind v
  · rw [hgoal, TierVector.atMost_iff]
    have hstart : (s.tableau.count f).objective .goal = s.tableau.goal := Tableau.goal_count _ f
    rwa [hstart] at hle

/-- A solver in which two positions were asked of one variable, first the one at the weaker tier. -/
def contested : Solver Rat Rat :=
  (empty {}).run
    [.declare .external "x", .arrange (.value ⟨0⟩ 2) .low, .arrange (.value ⟨0⟩ 5) .medium]

/-- Of the two positions that are asked of a variable, which stands at the one of the weaker tier,
optimisation gives it that of the stronger tier by an exchange, and no assignment has a lower
penalty than what is left at the other. -/
theorem optimize_least_of_contested :
    contested.tableau.counters.pivots = 0 ∧ contested.tableau.goal.constant.get .medium = 3 ∧
      contested.optimize.2.tableau.counters.pivots = 1 ∧
      contested.optimize.2.tableau.goal.constant.get .medium = 0 ∧
      contested.optimize.2.tableau.rowValue ⟨0⟩ = 5 ∧
      contested.tableau.IsLeastPenalty contested.optimize.2.tableau.goal.constant := by
  have hreachable : contested.Reachable := ⟨_, _, rfl⟩
  refine ⟨by decide +kernel, by decide +kernel, by decide +kernel, by decide +kernel,
    by decide +kernel, ?_⟩
  obtain ⟨-, -, -, ⟨-, hleast⟩ | ⟨limit, hlimit⟩⟩ :=
    Reachable.optimize_least hreachable (by decide +kernel)
  · exact hleast
  · have hok : contested.optimize.1.toBool = true := by decide +kernel
    rw [hlimit] at hok
    exact absurd hok (by simp [Except.toBool])

end Solver

end LexSimplex
