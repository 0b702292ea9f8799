import LexSimplex.Proofs.Pins

/-!
# What holds after a removal

A removal that displaces no marker leaves a basic-feasible tableau, and there the hard constraints
that are still listed hold: those of redundant equalities too, whose markers are basic at zero. A
constraint has the values of its pinned variables as numbers, and reads the others off the rows;
that the values which a caller is told are the same takes a caller who removes no hidden constraint,
and handles that have not come round: a hidden constraint whose handle is given out again may go
with the constraint that has the handle now.

## Main definitions

* `Tableau.HardHold`: the hard constraints hold under an assignment.

## Main results

* `Session.remove_feasible_iff`: a removal keeps a tableau feasible if and only if it displaces no
  marker, and then the hard constraints hold.
-/

namespace LexSimplex

open Function (update update_self update_of_ne)

namespace Tableau

variable {t t' : Tableau Rat Rat} {own own' : VarId → Prop} {v : VarId} {a : Assignment}

/-- The **hard constraints hold** under an assignment if the expression of each, with the numbers
that it took in, stands in its relation to zero. Constraints with error terms of their own are not
hard. -/
def HardHold (t : Tableau Rat Rat) (a : Assignment) : Prop :=
  ∀ id c, t.constraints.get? id = some c → c.request.strength.hard → c.request.errors = [] →
    c.relation.Holds (c.expr.eval a)

/-- The hard constraints hold under every solution in which the markers of constraints have values
of their kinds. -/
theorem Regular.hardHold (h : t.Regular) (hfaithful : t.Faithful) (ha : t.Satisfies a)
    (hadmits : ∀ id c, t.constraints.get? id = some c →
      (t.kind c.tag.marker).Admits (a c.tag.marker)) : t.HardHold a :=
  fun id c hc hhard herrors => holds_expr_of_hard (hfaithful.fit id c hc) (h.kinds id c hc)
    (hadmits id c hc) (hfaithful.holds a ha id c hc) hhard herrors

/-- The hard constraints hold at the values that the rows give. -/
theorem Regular.hardHold_rowValue (h : t.Regular) (hfaithful : t.Faithful)
    (hfeasible : t.BasicFeasible) : t.HardHold t.rowValue :=
  h.hardHold hfaithful hfaithful.wellFormed.linked.satisfies_rowValue
    fun _ c _ => hfeasible.admits_rowValue hfaithful.wellFormed.linked c.tag.marker

/-! ### Constants are taken in as numbers -/

/-- An authored tableau is **spelled** with variables: no constraint has a constant as a term. -/
structure Spelled (own : VarId → Prop) (t : Tableau Rat Rat) : Prop where
  authored : t.Authored own
  term : ∀ id c, t.constraints.get? id = some c → ∀ v ∈ c.request.expr.vars,
    c.values.get? v = none → t.kind v ≠ .constant

/-- It is enough that no constraint is new and that the kinds of the caller's variables stay. -/
theorem Spelled.of_kind_eq (h : t.Spelled own) (hauthored : t'.Authored own')
    (hcons : ∀ id c, t'.constraints.get? id = some c → t.constraints.get? id = some c)
    (hkind : ∀ v, own v → t'.kind v = t.kind v) : t'.Spelled own' := by
  refine ⟨hauthored, fun id c hc v hv hnone => ?_⟩
  rw [hkind v (h.authored.named id c (hcons id c hc) v hv)]
  exact h.term id c (hcons id c hc) v hv hnone

/-- Constraints are spelled in the caller's variables after an insertion that is. -/
theorem Spelled.insert (h : t.Spelled own) {request : Request Rat}
    (hown : ∀ v ∈ request.expr.vars, t.vars.isLive v → own v) (relation : Relation) :
    (t.insert request relation).2.Spelled own := by
  have hwell := h.authored.faithful.wellFormed
  have hauthored := h.authored.insert hown relation
  obtain ⟨hentered, hkept⟩ := hwell.linked.constraints_insert request relation
  have hkind : ∀ v, t.vars.isLive v → (t.insert request relation).2.kind v = t.kind v :=
    fun v hv => (hwell.continues_insert request relation).kind_eq hv
  cases hresult : (t.insert request relation).1 with
  | error fault =>
      refine h.of_kind_eq hauthored (fun id c hc => ?_) fun v hv => hkind v (h.authored.isLive v hv)
      rwa [hkept fault hresult] at hc
  | ok id =>
      obtain ⟨rfl, hlive, hcons⟩ := hentered id hresult
      have hstates := hwell.linked.states_draft request relation
      refine ⟨hauthored, ?_⟩
      rw [hcons]
      refine Assoc.forall_get?_insert_of_forall (fun v hv hnone hk => ?_)
        fun id c hc v hv hnone => ?_
      · rw [hstates.request_eq] at hv
        rw [hkind v (hlive v hv)] at hk
        obtain ⟨y, hy⟩ := VariablePool.isLive_iff.mp (hlive v hv)
        rw [kind_of_get? hy] at hk
        rw [hstates.values_eq v hv, hy, Option.filter_some,
          if_pos (by simp [Variable.isFolded, hk])] at hnone
        exact absurd hnone (by simp)
      · rw [hkind v (h.authored.isLive v (h.authored.named id c hc v hv))]
        exact h.term id c hc v hv hnone

/-- Constraints are spelled in the caller's variables after a removal. -/
theorem Spelled.remove (h : t.Spelled own) (id : ConstraintId) :
    (t.remove id).2.Spelled own := by
  refine remove_cases (p := fun result => result.2.Spelled own) (fun _ => h) fun c hc => ?_
  obtain ⟨-, hkeeps⟩ := h.authored.faithful.wellFormed.withdraw hc
  refine h.of_kind_eq (h.authored.withdraw hc) ?_ fun v hv => ?_
  · rw [constraints_withdraw, Assoc.forall_get?_erase]
    exact fun _ _ _ hc' => hc'
  · exact hkeeps.kind_eq (fun hmem => h.authored.apart id c hc v hmem hv)
      (h.authored.isLive v hv)

/-- That constraints are spelled in the caller's variables lasts. -/
theorem lasting_spelled : Session.Lasting Spelled := by
  have hauthored := Session.lasting_authored
  refine ⟨fun own => ⟨fun t request relation hown h => h.insert hown relation,
    fun t id h => h.remove id, fun t v x h => ?_, fun t v h => ?_, fun t f h => ?_⟩,
    fun own settings hown => ?_, fun own t hown => ?_, fun own t kind stem h => ?_,
    fun own t h => ?_, fun own t h => ?_, fun own t h => ?_⟩
  · exact h.of_kind_eq ((closed_authored own).pin t v x h.authored) (fun _ _ hc => hc)
      fun w _ => kind_modifyVar t v (f := (·.pin x)) (fun _ => rfl) w
  · exact h.of_kind_eq ((closed_authored own).unpin t v h.authored) (fun _ _ hc => hc)
      fun w _ => kind_modifyVar t v (f := Variable.unpin) (fun _ => rfl) w
  · refine h.of_kind_eq ((closed_authored own).count t f h.authored) (fun id c hc => ?_)
      fun w _ => kind_count t f w
    rwa [constraints_count] at hc
  · exact ⟨hauthored.empty own settings hown,
      fun _ _ hc => absurd hc (by simp [Tableau.empty])⟩
  · exact ⟨hauthored.reset own t hown, fun _ _ hc => absurd hc (by simp [Tableau.reset])⟩
  · refine h.of_kind_eq (h.authored.addVariable kind stem) (fun id c hc => ?_) fun v hv => ?_
    · rwa [constraints_addVariable] at hc
    · exact (t.continues_addVariable kind stem).kind_eq (h.authored.isLive v hv)
  · refine h.of_kind_eq (hauthored.minimise own t h.authored) (fun id c hc => ?_) fun v _ => ?_
    · rwa [constraints_minimise] at hc
    · exact (h.authored.faithful.wellFormed.linked.sameVars_minimise .goal).kind_eq v
  · exact h.of_kind_eq (hauthored.settle own t h.authored) (fun _ _ hc => hc)
      fun v hv => t.continues_settle.kind_eq (h.authored.isLive v hv)
  · exact h.of_kind_eq (hauthored.resetCounters own t h.authored) (fun _ _ hc => hc)
      fun _ _ => rfl

end Tableau

/-! ### The values that a caller is told -/

namespace Solver

variable {s : Solver Rat Rat} {own : VarId → Prop} {v : VarId}

/-- In a backed solver a variable in the rows has the value that the rows give it, unless it is a
constant. -/
theorem Backed.value_eq_rowValue (h : s.Backed) (hroom : s.tableau.Unwrapped)
    (hfaithful : s.tableau.Faithful)
    (hregular : s.tableau.Regular) (hfeasible : s.tableau.BasicFeasible)
    (hlive : s.tableau.vars.isLive v) (hk : s.tableau.kind v ≠ .constant)
    (hv : ¬s.tableau.FreeOf v) : s.tableau.value v = s.tableau.rowValue v := by
  obtain ⟨y, hy⟩ := VariablePool.isLive_iff.mp hlive
  by_cases hp : y.pinned = true
  · have hf : y.isFolded = true := by
      rw [Variable.isFolded, hp, Bool.true_or]
    rw [Tableau.value_of_isFolded hy hf]
    obtain ⟨hidden, hpin⟩ := h.noted v y hy hp
    obtain ⟨z, hz, -, hbacks⟩ := h.pin v hidden hpin
    obtain rfl := Option.some.inj (hy.symm.trans hz)
    cases hidden with
    | some id =>
        exact (Tableau.HeldBy.rowValue_eq (hbacks hroom) hfaithful hregular hfeasible hk).symm
    | none => exact absurd (hbacks hroom hk) hv
  · refine Tableau.value_of_not_isFolded hy ?_
    rw [Tableau.kind_of_get? hy] at hk
    simp [Variable.isFolded, hp, hk]

/-- There is a **solution of the told values**: it has the values of the rows for the own variables
of constraints, and each constraint's expression has in it the value that it has for a caller. It
has the told values but for constants, which have no terms in constraints. -/
theorem Sound.exists_told (h : s.Sound own) (hroom : s.tableau.Unwrapped)
    (hspelled : s.tableau.Spelled own)
    (hregular : s.tableau.Regular) (hfeasible : s.tableau.BasicFeasible) :
    ∃ a, s.tableau.Satisfies a ∧ ∀ id c, s.tableau.constraints.get? id = some c →
      (∀ v ∈ c.tag.vars, a v = s.tableau.rowValue v) ∧
        c.expr.eval a = c.expr.eval s.tableau.value := by
  have hfaithful := hspelled.authored.faithful
  have hl := hfaithful.wellFormed.linked
  let a : Assignment := fun v =>
    if s.tableau.kind v = .constant then s.tableau.rowValue v else s.tableau.value v
  have hrows : ∀ v, s.tableau.vars.isLive v → ¬s.tableau.FreeOf v →
      a v = s.tableau.rowValue v := by
    intro v hlive hfree
    by_cases hk : s.tableau.kind v = .constant
    · exact if_pos hk
    · exact (if_neg hk).trans
        (h.backed.value_eq_rowValue hroom hfaithful hregular hfeasible hlive hk hfree)
  refine ⟨a, fun r hr => ?_, fun id c hc => ⟨fun v hv => ?_, ?_⟩⟩
  · have hrow := hl.row r hr
    have hbasic := hrows r.basic hrow.basic_isLive fun hfree =>
      (hfree.absent hl hfaithful.normal).1 ⟨r, hr, rfl⟩
    have hterm : ∀ w ∈ r.expr.vars, a w = s.tableau.rowValue w := fun w hw =>
      hrows w (hrow.term w hw).1 fun hfree => (hfree.absent hl hfaithful.normal).2 r hr hw
    rw [Row.Holds, hbasic, LinExpr.eval_congr hterm]
    exact hl.satisfies_rowValue r hr
  · by_cases hk : s.tableau.kind v = .constant
    · exact if_pos hk
    · refine (if_neg hk).trans ?_
      obtain ⟨y, hy⟩ := VariablePool.isLive_iff.mp (hfaithful.wellFormed.owned.isLive id c hc v hv)
      have hp : y.pinned = false := by
        by_contra hp
        obtain ⟨hidden, hpin⟩ := h.backed.noted _ y hy (by simpa using hp)
        exact hspelled.authored.apart id c hc v hv (h.keeping.noted _ (noted_of_pins hpin))
      refine Tableau.value_of_not_isFolded hy ?_
      rw [Tableau.kind_of_get? hy] at hk
      simp [Variable.isFolded, hp, hk]
  · exact Constraint.eval_expr_congr fun w hw hnone =>
      if_neg (hspelled.term id c hc w hw hnone)

/-- The hard constraints hold at the values that a caller is told. -/
theorem Sound.hardHold_value (h : s.Sound own) (hroom : s.tableau.Unwrapped)
    (hspelled : s.tableau.Spelled own)
    (hregular : s.tableau.Regular) (hfeasible : s.tableau.BasicFeasible) :
    s.tableau.HardHold s.tableau.value := by
  have hfaithful := hspelled.authored.faithful
  obtain ⟨a, hsat, htold⟩ := h.exists_told hroom hspelled hregular hfeasible
  intro id c hc hhard herrors
  obtain ⟨-, hvalue⟩ := htold id c hc
  rw [← hvalue]
  refine hregular.hardHold hfaithful hsat (fun id c hc => ?_) id c hc hhard herrors
  rw [(htold id c hc).1 _ List.mem_cons_self]
  exact hfeasible.admits_rowValue hfaithful.wellFormed.linked _

end Solver

namespace Session

variable {s : Session Rat Rat} {id : ConstraintId} {c : Constraint Rat}

/-- A careful command leaves the notes right. -/
theorem backed_perform (h : s.solver.Sound (· ∈ s.created)) {command : Command Rat Rat}
    (hc : s.Careful command) : (s.solver.perform command).2.Backed := by
  obtain ⟨hnames, hremoved⟩ := hc
  cases command with
  | declare kind stem => exact h.backed.addVariable h.keeping.noted kind _
  | add request relation => exact (h.add hnames relation).backed
  | arrange layout strength => exact (h.add hnames _).backed
  | remove id => exact (h.remove fun _ => hremoved id rfl).backed
  | pin v x => exact (h.pin (hnames v List.mem_cons_self) x).backed
  | unpin v => exact (h.unpin v).backed
  | optimize => exact h.optimize
  | reset =>
      exact Solver.Backed.of_nothing (VariablePool.get?_reset s.solver.tableau.vars) rfl rfl
  | resetCounters =>
      obtain ⟨hpin, hnoted, hhold, hapart, hnodup⟩ := h.backed
      exact ⟨hpin, hnoted, hhold, hapart, hnodup⟩

/-- A careful run is one in which the caller writes the requests. -/
theorem Run.authored (h : s.Run Session.Careful) : s.Run Session.Authored :=
  h.mono fun _ _ hc => hc.1

/-- After a careful run the solver is sound for the caller. -/
theorem Run.sound (h : s.Run Session.Careful) : s.solver.Sound (· ∈ s.created) := by
  refine ⟨h.authored.kept, ?_⟩
  induction h with
  | start settings => exact Solver.Backed.of_nothing (fun _ => rfl) rfl rfl
  | step hrun hc ih => exact backed_perform ⟨hrun.authored.kept, ih⟩ hc

/-- **Removal.** In a reachable solver whose tableau is basic-feasible, the removal of a live
constraint keeps it so if and only if it displaces no marker. In that case the hard constraints
that are left hold at the values of the rows, if the caller named only own variables; and they hold
at the values that the caller is told, if no hidden constraint was ever removed by its handle and
handles have not come round. -/
theorem remove_feasible_iff (h : s.solver.Reachable)
    (hfeasible : s.solver.tableau.BasicFeasible)
    (hc : s.solver.tableau.constraints.get? id = some c) :
    let left := (s.solver.tableau.remove id).2
    (left.BasicFeasible ↔ ¬s.solver.tableau.Displaces c.tag.marker) ∧
      (¬s.solver.tableau.Displaces c.tag.marker → s.Run Session.Authored →
        left.HardHold left.rowValue) ∧
      (¬s.solver.tableau.Displaces c.tag.marker → s.Run Session.Careful →
        ¬s.solver.IsHidden id → s.solver.tableau.Unwrapped → left.HardHold left.value) := by
  intro left
  have hremove : left = s.solver.tableau.withdraw id c.tag := by
    rw [show left = (s.solver.tableau.remove id).2 from rfl, Tableau.remove, hc]
  have hregular : left.Regular :=
    (Tableau.closed_regular fun _ => True).remove s.solver.tableau id h.regular
  have hiff : left.BasicFeasible ↔ ¬s.solver.tableau.Displaces c.tag.marker := by
    rw [hremove]
    exact h.regular.basicFeasible_withdraw_iff hfeasible hc
  refine ⟨hiff, fun hnot hrun => ?_, fun hnot hrun hid hroom => ?_⟩
  · have hauthored := (Tableau.closed_authored (· ∈ s.created)).remove s.solver.tableau id
      hrun.kept.tableau
    exact hregular.hardHold_rowValue hauthored.faithful (hiff.mpr hnot)
  · have hspelled := (Tableau.lasting_spelled.keeping hrun.authored).tableau.remove id
    have hleft : left.Unwrapped :=
      hroom.of_le (Nat.le_of_eq (Tableau.entered_remove s.solver.tableau id))
    exact (hrun.sound.removeConstraint fun _ => hid).hardHold_value hleft hspelled hregular
      (hiff.mpr hnot)

/-- A session in which an equality was stated twice, and then that its variable is not
negative. -/
def repeatedSession : Session Rat Rat :=
  ((((start {}).perform (.declare .external "x")).perform
    (.add (Solver.pinRequest ⟨0⟩ (5 : Rat)) .eq)).perform
    (.add (Solver.pinRequest ⟨0⟩ (5 : Rat)) .eq)).perform
    (.add (Solver.pinRequest ⟨0⟩ (0 : Rat)) .ge)

/-- In this session the removal of the equality that was stated first displaces the marker of the
other, and the removal of the other does not. -/
theorem remove_feasible_iff_of_repeatedSession :
    ¬(repeatedSession.solver.tableau.remove ⟨0⟩).2.BasicFeasible ∧
      (repeatedSession.solver.tableau.remove ⟨1⟩).2.BasicFeasible ∧
      (repeatedSession.solver.tableau.remove ⟨1⟩).2.HardHold
        (repeatedSession.solver.tableau.remove ⟨1⟩).2.value := by
  have hrun : repeatedSession.Run Session.Careful :=
    .step (.step (.step (.step (.start {}) (by decide +kernel)) (by decide +kernel))
      (by decide +kernel)) (by decide +kernel)
  have hfeasible : repeatedSession.solver.tableau.BasicFeasible := by decide +kernel
  have hfirst : (repeatedSession.solver.tableau.constraints.get? ⟨0⟩).map
      (fun c => c.tag.marker) = some ⟨1⟩ := by decide +kernel
  have hsecond : (repeatedSession.solver.tableau.constraints.get? ⟨1⟩).map
      (fun c => c.tag.marker) = some ⟨2⟩ := by decide +kernel
  obtain ⟨c, hc, hm⟩ := Option.map_eq_some_iff.mp hfirst
  obtain ⟨c', hc', hm'⟩ := Option.map_eq_some_iff.mp hsecond
  obtain ⟨hiff, -⟩ := remove_feasible_iff hrun.reachable hfeasible hc
  obtain ⟨hiff', -, hhold⟩ := remove_feasible_iff hrun.reachable hfeasible hc'
  rw [hm] at hiff
  rw [hm'] at hiff' hhold
  exact ⟨fun hleft => hiff.mp hleft (by decide +kernel), hiff'.mpr (by decide +kernel),
    hhold (by decide +kernel) hrun (by decide +kernel) (by decide +kernel)⟩

end Session

end LexSimplex
