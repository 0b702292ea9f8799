import LexSimplex.Proofs.Equations
import LexSimplex.Proofs.PhaseOne

/-!
# Admission

Placing a draft adds its equation to the solutions of the tableau if it is accepted, in each of
the ways there are to place one, and leaves the solutions as they were if it is not. So an
insertion that is accepted adds the equation of its constraint, and one that fails leaves no
trace, whether it was refused or broke off.

The solutions of a tableau whose constraints were all inserted are therefore those of their
equations.

## Main definitions

* `Tableau.Admitted`: what placing a draft comes to.
* `Tableau.Faithful`: the solutions are those of the constraints.

## Main results

* `Tableau.Admissible.admitted`: placing a draft adds its equation or nothing.
* `Tableau.Faithful.insert`: an insertion keeps a tableau faithful, accepted or not.
-/

namespace LexSimplex

open Function (update)

namespace Tableau

variable {t t' : Tableau Rat Rat} {d : Draft Rat} {v : VarId} {request : Request Rat}
  {relation : Relation}

/-! ### Placing a draft -/

/-- What placing a draft comes to: if it is accepted its equation is added to the solutions, and
if not the solutions stay. -/
structure Admitted (t : Tableau Rat Rat) (d : Draft Rat)
    (result : Except Fault Bool × Tableau Rat Rat) : Prop where
  normal : result.2.Normal
  accepted : result.1 = .ok true →
    ∀ a, result.2.Satisfies a ↔ t.Satisfies a ∧ d.expr.eval a = 0
  refused : result.1 ≠ .ok true → ∀ a, result.2.Satisfies a ↔ t.Satisfies a

/-- Solving for a variable with a coefficient that is not zero admits a draft. -/
theorem Admissible.admitted_solved (h : t.Admissible d) (hv : ¬t.IsBasic v)
    (hcoef : d.expr.coefficient v ≠ 0) : t.Admitted d (.ok true, t.solved d v) := by
  refine ⟨?_, fun _ a => h.placeable.satisfies_solved hv hcoef, fun hne => absurd rfl hne⟩
  exact Normal.attach (h.placeable.linked.normal_substitute h.normal v _)
    (h.expr_normal.solveFor v)

/-- The subject of a draft has a coefficient that is not zero. -/
theorem Admissible.coefficient_subject_ne_zero (h : t.Admissible d)
    (hv : t.subject? d = some v) : d.expr.coefficient v ≠ 0 := by
  rcases subject?_cases hv with ⟨hmem, -⟩ | ⟨-, -, -, hneg⟩
  · exact h.expr_normal.mem_vars_iff.mp hmem
  · exact ne_of_lt hneg

/-- A measured draft is admitted if the artificial variable reached zero. The artificial variable
leaves the basis only where the minimum is zero. -/
theorem Admissible.admitted_settled (h : t.Admissible d) :
    t.Admitted d ((((t.measured d).minimise .phaseOne).1.map fun _ =>
        reached ((t.measured d).minimise .phaseOne)),
      ((t.measured d).minimise .phaseOne).2.settled d t.artificial
        (reached ((t.measured d).minimise .phaseOne))) := by
  have hd := h.measurable
  have hm := hd.measures.minimise .phaseOne
  have houtcome := minimise_outcome .phaseOne (t.measured d)
  generalize (t.measured d).minimise .phaseOne = result at hm houtcome ⊢
  have hreached : ¬result.2.IsBasic t.artificial → reached result = true := by
    intro hart
    obtain ⟨hnone, hmet⟩ := hm.reached_of_not_isBasic hart
    rw [reached, houtcome, hnone, hmet]
    rfl
  refine ⟨hm.normal_settled _, fun hok a => ?_, fun hne a => ?_⟩
  · refine hm.satisfies_settled_of_reached hd fun _ => ?_
    cases hfst : result.1 with
    | error fault =>
        rw [hfst] at hok
        exact absurd hok (by simp [Except.map])
    | ok u =>
        rw [hfst] at hok
        exact Except.ok.inj hok
  · have hfalse : reached result = false := by
      by_contra htrue
      rw [Bool.not_eq_false] at htrue
      refine hne ?_
      cases hfst : result.1 with
      | error fault => simp [reached, hfst, Except.toBool] at htrue
      | ok u => exact congrArg Except.ok htrue
    have hart : result.2.IsBasic t.artificial := by
      by_contra hnot
      rw [hreached hnot] at hfalse
      exact absurd hfalse (by simp)
    rw [hfalse]
    exact hm.satisfies_settled_of_isBasic hd hart

/-- Counting leaves what was admitted. -/
theorem Admitted.of_count {f : Counters → Counters} {o : Except Fault Bool} {t₀ : Tableau Rat Rat}
    (h : t₀.Admitted d (o, t)) : t₀.Admitted d (o, t.count f) := by
  have hrows := rows_count t f
  refine ⟨h.normal.of_rows hrows, fun hok a => ?_, fun hne a => ?_⟩
  · rw [satisfies_congr hrows]
    exact h.accepted hok a
  · rw [satisfies_congr hrows]
    exact h.refused hne a

/-- **Placing** a draft adds its equation to the solutions, or nothing. -/
theorem Admissible.admitted (h : t.Admissible d) : t.Admitted d (t.place d) := by
  refine place_cases (p := t.Admitted d) ?_ ?_ ?_ ?_ ?_ ?_
  · exact fun o t' f hadmitted => hadmitted.of_count
  · intro v hv
    exact h.admitted_solved (h.placeable.subject hv).2 (h.coefficient_subject_ne_zero hv)
  · intro _ _ _ hmem
    refine ⟨Normal.attach h.normal (h.expr_normal.solveFor _), fun _ a => ?_,
      fun hne => absurd rfl hne⟩
    have hcoef := h.expr_normal.mem_vars_iff.mp hmem
    rw [satisfies_attach]
    exact and_congr_right fun _ => LinExpr.eval_solveFor_iff h.placeable.nodup hcoef a
  · exact fun hnot => absurd h.mem_marker hnot
  · exact fun _ _ _ =>
      ⟨h.normal.of_rows rfl, fun hok => absurd hok (by simp), fun _ a => satisfies_congr rfl⟩
  · intro f _
    obtain ⟨hnormal, haccepted, hrefused⟩ := (h.count f).admitted_settled
    have hrows := rows_count t f
    refine ⟨hnormal, fun hok a => ?_, fun hne a => ?_⟩
    · rw [haccepted hok, satisfies_congr hrows]
    · rw [hrefused hne, satisfies_congr hrows]

/-! ### Inserting a request -/

/-- The draft of a request is admissible. -/
theorem Linked.admissible (h : t.Linked none) (hn : t.Normal)
    (hlive : ∀ v ∈ request.expr.vars, t.vars.isLive v) (relation : Relation) :
    (t.draft request relation).2.Admissible (t.draft request relation).1 := by
  have hdrafted := h.draft request relation
  have hstated := h.stated hlive relation
  have hrows := hdrafted.joined.rows
  refine ⟨hdrafted.placeable h, hn.of_rows hrows, hstated.normal, hstated.mem_marker, ?_⟩
  intro w hw a x hsat
  have hdead : ¬t.vars.isLive w := fun hl => hdrafted.joined.notMem_of_isLive hl hw
  rw [satisfies_congr hrows] at hsat ⊢
  exact (h.absent_of_not_isLive hdead).freeOf a x hsat

/-- A placed request has its constraint's equation, or nothing of it. -/
theorem Linked.satisfies_placed (h : t.Linked none) (hn : t.Normal)
    (hlive : ∀ v ∈ request.expr.vars, t.vars.isLive v) (relation : Relation) :
    (t.placed request relation).2.Normal ∧
      ((t.placed request relation).1 = .ok true → ∀ a,
        (t.placed request relation).2.Satisfies a ↔
          t.Satisfies a ∧ (t.draft request relation).1.constraint.Holds a) ∧
      ((t.placed request relation).1 ≠ .ok true → ∀ a,
        (t.placed request relation).2.Satisfies a ↔ t.Satisfies a) := by
  have hrows := (h.draft request relation).joined.rows
  obtain ⟨hnormal, haccepted, hrefused⟩ := (h.admissible hn hlive relation).admitted
  refine ⟨hnormal, fun hok a => ?_, fun hne a => ?_⟩
  · refine (haccepted hok a).trans ?_
    rw [satisfies_congr hrows]
    exact and_congr_right fun hsat => (h.stated hlive relation).eval_iff a hsat
  · refine (hrefused hne a).trans ?_
    rw [satisfies_congr hrows]

/-- Where a request was not accepted, its own variables are not in the tableau. -/
theorem Linked.freeOf_placed (h : t.Linked none) (hn : t.Normal)
    (hlive : ∀ v ∈ request.expr.vars, t.vars.isLive v) {relation : Relation}
    (hne : (t.placed request relation).1 ≠ .ok true) :
    ∀ v ∈ (t.draft request relation).1.constraint.tag.vars,
      (t.placed request relation).2.FreeOf v := by
  obtain ⟨-, -, hrefused⟩ := h.satisfies_placed hn hlive relation
  have hsat := hrefused hne
  intro v hv a x ha
  have hdead : ¬t.vars.isLive v :=
    fun hl => (h.draft request relation).joined.notMem_of_isLive hl hv
  exact (hsat _).mpr ((h.absent_of_not_isLive hdead).freeOf a x ((hsat a).mp ha))

/-- Variables on which the solutions do not depend may be discarded. -/
theorem Linked.satisfies_foldl_discard {vs : List VarId} (h : t.Linked none) (hn : t.Normal)
    (hfree : ∀ v ∈ vs, t.FreeOf v) (a : Assignment) :
    (vs.foldl Tableau.discard t).Satisfies a ↔ t.Satisfies a := by
  induction vs generalizing t with
  | nil => exact Iff.rfl
  | cons v vs ih =>
      have hv := hfree v List.mem_cons_self
      have hsat : ∀ a, (t.discard v).Satisfies a ↔ t.Satisfies a :=
        fun a => hv.satisfies_discard h hn
      refine (ih (h.discard v) (h.normal_discard hn v) fun w hw b x hb => ?_).trans (hsat a)
      exact (hsat _).mpr (hfree w (List.mem_cons_of_mem _ hw) b x ((hsat b).mp hb))

/-! ### Constraints -/

/-- A tableau is **faithful** to its constraints: its solutions satisfy their equations, and as long
as handles have not come round, what satisfies their equations is a solution. Once they have, the
rows of a constraint that was overwritten are still in force. -/
structure Faithful (t : Tableau Rat Rat) : Prop where
  wellFormed : t.WellFormed
  normal : t.Normal
  fit : ∀ id c, t.constraints.get? id = some c → c.Fit
  holds : ∀ a, t.Satisfies a → ∀ id c, t.constraints.get? id = some c → c.Holds a
  satisfies : t.Unwrapped → ∀ a,
    (∀ id c, t.constraints.get? id = some c → c.Holds a) → t.Satisfies a

/-- As long as handles have not come round, the solutions of a faithful tableau are those of its
constraints. -/
theorem Faithful.satisfies_iff (h : t.Faithful) (hroom : t.Unwrapped) (a : Assignment) :
    t.Satisfies a ↔ ∀ id c, t.constraints.get? id = some c → c.Holds a :=
  ⟨h.holds a, h.satisfies hroom a⟩

/-- With the same constraints, it is enough that the solutions stay. -/
theorem Faithful.of_satisfies_iff (h : t.Faithful) (hwell : t'.WellFormed) (hn : t'.Normal)
    (hcons : t'.constraints = t.constraints) (hnext : t'.entered = t.entered)
    (hsat : ∀ a, t'.Satisfies a ↔ t.Satisfies a) : t'.Faithful := by
  refine ⟨hwell, hn, ?_, fun a ha => ?_, fun hroom a hall => ?_⟩
  · rw [hcons]
    exact h.fit
  · rw [hcons]
    exact h.holds a ((hsat a).mp ha)
  · rw [hcons] at hall
    exact (hsat a).mpr (h.satisfies (hroom.of_le (Nat.le_of_eq hnext.symm)) a hall)

/-- A refused request leaves the solutions as they were, and so does one that broke off. -/
theorem Linked.satisfies_insert (h : t.Linked none) (hn : t.Normal) (request : Request Rat)
    (relation : Relation) :
    (t.insert request relation).2.Normal ∧
      (∀ id, (t.insert request relation).1 = .ok id → ∀ a,
        (t.insert request relation).2.Satisfies a ↔
          t.Satisfies a ∧ (t.draft request relation).1.constraint.Holds a) ∧
      ∀ fault, (t.insert request relation).1 = .error fault → ∀ a,
        (t.insert request relation).2.Satisfies a ↔ t.Satisfies a := by
  have hdrafted := h.draft request relation
  obtain ⟨hlinked, -⟩ := Linked.place (hdrafted.placeable h)
  refine insert_cases (p := fun result => result.2.Normal ∧
    (∀ id, result.1 = .ok id → ∀ a, result.2.Satisfies a ↔
      t.Satisfies a ∧ (t.draft request relation).1.constraint.Holds a) ∧
    ∀ fault, result.1 = .error fault → ∀ a, result.2.Satisfies a ↔ t.Satisfies a) ?_ ?_ ?_ ?_
  · exact fun _ _ _ => ⟨hn, fun _ hok => absurd hok (by simp), fun _ _ _ => Iff.rfl⟩
  · intro fault hlive hplaced
    obtain ⟨hnormal, -, hrefused⟩ := h.satisfies_placed hn hlive relation
    exact ⟨hnormal, fun _ hok => absurd hok (by simp),
      fun _ _ => hrefused (by rw [hplaced]; simp)⟩
  · intro hlive hplaced
    obtain ⟨hnormal, haccepted, -⟩ := h.satisfies_placed hn hlive relation
    have hrows := rows_register (t.placed request relation).2
      (t.draft request relation).1.constraint
    refine ⟨hnormal.of_rows hrows, fun _ _ a => ?_, fun _ herror => absurd herror (by simp)⟩
    rw [satisfies_congr hrows]
    exact haccepted hplaced a
  · intro _ f hlive hplaced
    obtain ⟨hnormal, -, hrefused⟩ := h.satisfies_placed hn hlive relation
    have hne : (t.placed request relation).1 ≠ .ok true := by
      rw [hplaced]
      simp
    have hfree := h.freeOf_placed hn hlive hne
    have hrows := rows_count ((t.draft request relation).1.constraint.tag.vars.foldl Tableau.discard
      (t.placed request relation).2) f
    refine ⟨(hlinked.normal_foldl_discard hnormal _).of_rows hrows,
      fun _ hok => absurd hok (by simp), fun _ _ a => ?_⟩
    rw [satisfies_congr hrows]
    exact (hlinked.satisfies_foldl_discard hnormal hfree a).trans (hrefused hne a)

/-- An **insertion** keeps a tableau faithful, accepted or not. -/
theorem Faithful.insert (h : t.Faithful) (request : Request Rat) (relation : Relation) :
    (t.insert request relation).2.Faithful := by
  have hlinked := h.wellFormed.linked
  obtain ⟨hnormal, haccepted, hrefused⟩ := hlinked.satisfies_insert h.normal request relation
  obtain ⟨hentered, hkept⟩ := hlinked.constraints_insert request relation
  obtain ⟨hwell, -⟩ := h.wellFormed.insert request relation
  cases hresult : (t.insert request relation).1 with
  | error fault =>
      exact h.of_satisfies_iff hwell hnormal (hkept fault hresult)
        ((hlinked.entered_insert request relation).2 fault hresult) (hrefused fault hresult)
  | ok id =>
      obtain ⟨rfl, hlive, hcons⟩ := hentered id hresult
      refine ⟨hwell, hnormal, ?_, fun a ha => ?_, fun hroom a hall => ?_⟩
      · rw [hcons]
        exact Assoc.forall_get?_insert_of_forall (hlinked.stated hlive relation).fit h.fit
      · obtain ⟨hsat, hnew⟩ := (haccepted _ hresult a).mp ha
        rw [hcons]
        exact Assoc.forall_get?_insert_of_forall hnew (h.holds a hsat)
      · have hbefore := hlinked.unwrapped_of_insert hroom
        rw [hcons, Assoc.forall_get?_insert_of_get?_eq_none
          (h.wellFormed.get?_nextConstraint hbefore)] at hall
        exact (haccepted _ hresult a).mpr ⟨h.satisfies hbefore a hall.2, hall.1⟩

end Tableau

end LexSimplex
