import LexSimplex.Arithmetic.Binary
import LexSimplex.Proofs.Consistency
import LexSimplex.Proofs.Trials

/-!
# Insertions that fail

What is left of an insertion that fails, in any arithmetic.

The variables, the constraints and the counts of folds are as they were, unless pivoting failed:
then the variables made for the request stay. The rest of what can be read depends on whether the
request was tried. If not, nothing has changed. If it was, values and penalties are those that the
trial came to, and the number of rows is the same if one row went with the variables that were
discarded.

## Main definitions

* `Solver.Unchanged`: what a refused insertion should leave.
* `Solver.Traceless`: a trial that cannot be told from what there was before.
* `Solver.Leakless`: what a failed insertion should leave.

## Main results

* `Solver.Reachable.unchanged_iff`: a refused insertion changes nothing that can be read, exactly
  if it was not tried or its trial is traceless.
* `Solver.Reachable.leakless_iff`: a failed insertion leaks nothing, exactly if pivoting did not
  fail and one row went with a trial.
-/

namespace LexSimplex

/-- A contradiction is not a failure of pivoting. -/
theorem Fault.isInternal_of_isInfeasible {fault : Fault} (h : fault.isInfeasible) :
    fault.isInternal = false := by
  cases fault <;> first | rfl | exact absurd h (by simp [isInfeasible])

/-- A fault of pivoting is no refusal. -/
theorem Fault.isInfeasible_of_isInternal {fault : Fault} (h : fault.isInternal) :
    fault.isInfeasible = false := by
  cases fault <;> first | rfl | exact absurd h (by simp [isInternal])

/-- A term that is added leaves the constant of a goal. -/
theorem Goal.constant_addTerm {K : Type} [Coefficient K] (g : Goal K) (v : VarId)
    (b : TierVector K) (c : K) : (g.addTerm v b c).constant = g.constant := by
  rw [addTerm]
  split <;> rfl

namespace Tableau

variable {K Q : Type} [Coefficient K] {t t' left : Tableau K Q} {v : VarId}

/-- A value depends on the core of the variable and on where it stands. -/
theorem value_congr [Precision K Q]
    (hcore : (t'.vars.get? v).map Variable.core = (t.vars.get? v).map Variable.core)
    (hrow : t.vars.isLive v → t'.rowValue v = t.rowValue v) : t'.value v = t.value v := by
  have hvalue : ∀ t : Tableau K Q, t.value v = (((t.vars.get? v).map Variable.core).map fun x =>
      if x.isFolded then Precision.widen x.computed else t.rowValue v).getD 0 := by
    intro t
    rw [value]
    cases t.vars.get? v <;> rfl
  rw [hvalue, hvalue, hcore]
  cases hx : t.vars.get? v with
  | none => rfl
  | some x => rw [hrow (VariablePool.isLive_iff.mpr ⟨x, hx⟩)]

variable [Scalar Q]

/-- Parts add terms to the goal, and its constant stays. -/
theorem constant_goal_joinParts (t : Tableau K Q) (e : LinExpr K) (ps : List (Part K)) :
    (t.joinParts e ps).2.2.goal.constant = t.goal.constant := by
  induction ps generalizing t e with
  | nil => rfl
  | cons p ps ih =>
      rw [joinParts_cons]
      refine (ih _ _).trans ?_
      cases p with
      | slack c => exact congrArg Goal.constant (goal_addVariable t .slack none)
      | marker c => exact congrArg Goal.constant (goal_addVariable t .constant none)
      | error s c =>
          exact (Goal.constant_addTerm _ _ _ _).trans
            (congrArg Goal.constant (goal_addVariable t .error none))

variable [Precision K Q] {request : Request K} {relation : Relation} {fault : Fault}

/-- Drafting a request leaves the constant of the goal. -/
theorem constant_goal_draft (t : Tableau K Q) (request : Request K) (relation : Relation) :
    (t.draft request relation).2.goal.constant = t.goal.constant := by
  obtain ⟨tag, hdraft, -⟩ := t.draft_eq request relation
  rw [hdraft]
  exact (constant_goal_joinParts _ _ _).trans (congrArg Goal.constant (goal_acquireRow t))

/-! ### The variables that go -/

/-- The artificial variable of a request is none of those made for it, and was not live. -/
theorem Linked.artificial_fresh (h : t.Linked none) (request : Request K) (relation : Relation) :
    (t.draft request relation).2.artificial ∉ t.made request relation ∧
      t.vars.get? (t.draft request relation).2.artificial = none := by
  have hjoined := (h.draft request relation).joined
  have hfree := (t.draft request relation).2.get?_addVariable_fst .slack none
  have hnotMade : (t.draft request relation).2.artificial ∉ t.made request relation := by
    intro hmem
    obtain ⟨x, hx, -⟩ := hjoined.new _ hmem
    exact absurd (hx.symm.trans hfree) (by simp)
  exact ⟨hnotMade, (hjoined.old _ hnotMade).symm.trans hfree⟩

/-- The variables that are discarded are distinct, and none of them was live. -/
theorem Linked.shed_fresh (h : t.Linked none) (request : Request K) (relation : Relation)
    (fault : Fault) : (t.shed request relation fault).Nodup ∧
      ∀ w ∈ t.shed request relation fault, t.vars.get? w = none := by
  have hjoined := (h.draft request relation).joined
  obtain ⟨hnotMade, hfresh⟩ := h.artificial_fresh request relation
  rw [shed]
  cases fault.isInfeasible with
  | false => simpa using hfresh
  | true =>
      refine ⟨List.nodup_cons.mpr ⟨hnotMade, hjoined.nodup⟩, fun w hw => ?_⟩
      rcases List.mem_cons.mp hw with rfl | hw
      · exact hfresh
      · exact hjoined.fresh w hw

/-- The tableau of a trial holds the variables of the draft and the artificial one. -/
theorem Linked.core_tried (h : t.Linked none) (hv : v ≠ (t.draft request relation).2.artificial) :
    ((t.tried request relation).vars.get? v).map Variable.core =
      ((t.draft request relation).2.vars.get? v).map Variable.core := by
  obtain ⟨-, hsame, -⟩ := ((h.draft request relation).placeable h).trial
  obtain ⟨name, hget⟩ := (t.draft request relation).2.get?_addVariable .slack none
  rw [tried, hsame.core_eq, hget]
  exact congrArg (Option.map Variable.core) (if_neg hv)

/-- Of the variables nothing changes, but that those made for the request stay where pivoting
failed. A variable that goes was not live, and was made for the request only where all that was made
goes. -/
theorem Linked.core_failed (h : t.Linked none) (hf : t.Failed request relation fault left)
    (v : VarId) :
    (left.vars.get? v).map Variable.core =
      if v ∈ t.made request relation ∧ fault.isInternal then
        ((t.draft request relation).2.vars.get? v).map Variable.core
      else (t.vars.get? v).map Variable.core := by
  have hplaceable := (h.draft request relation).placeable h
  have hjoined := (h.draft request relation).joined
  cases hf with
  | unknown w => rw [if_neg fun hw => absurd hw.2 (by simp [Fault.isInternal])]
  | refused hfault _ hleft =>
      rw [if_neg fun hw => by simp [Fault.isInternal_of_isInfeasible hfault] at hw,
        hleft.vars.get?_eq, hplaceable.linked.releaseRow.core_foldl_discard]
      by_cases hv : v ∈ t.made request relation
      · rw [if_pos hv, hjoined.fresh v hv, Option.map_none]
      · rw [if_neg hv]
        exact congrArg (Option.map Variable.core) (hjoined.old v hv)
  | tried hfault _ hleft =>
      obtain ⟨hlinked, -, -⟩ := hplaceable.trial
      have hclear : ({ t.tried request relation with phaseOne := none } :
          Tableau K Q).Linked none := hlinked.withoutPhaseOne
      obtain ⟨hnotMade, hfresh⟩ := h.artificial_fresh request relation
      rw [hleft.vars.get?_eq, hclear.core_foldl_discard]
      by_cases hv : v ∈ t.shed request relation fault
      · rw [if_pos hv, (h.shed_fresh request relation fault).2 v hv, Option.map_none, if_neg]
        rintro ⟨hmade, hinternal⟩
        rw [shed, Fault.isInfeasible_of_isInternal hinternal] at hv
        exact hnotMade (List.mem_singleton.mp hv ▸ hmade)
      · obtain ⟨hva, hrest⟩ := not_or.mp (mt List.mem_cons.mpr hv)
        refine (if_neg hv).trans ((h.core_tried hva).trans ?_)
        by_cases hmade : v ∈ t.made request relation
        · have hinternal : fault.isInternal := by
            refine hfault.resolve_left fun hinfeasible => hrest ?_
            rwa [if_pos hinfeasible]
          rw [if_pos ⟨hmade, hinternal⟩]
        · rw [if_neg fun hw => hmade hw.1, hjoined.old v hmade]

/-- Of a live variable nothing changes where an insertion fails. -/
theorem Linked.core_failed_of_isLive (h : t.Linked none) (hf : t.Failed request relation fault left)
    (hv : t.vars.isLive v) :
    (left.vars.get? v).map Variable.core = (t.vars.get? v).map Variable.core := by
  have hnotMade := (h.draft request relation).joined.notMem_of_isLive hv
  rw [h.core_failed hf, if_neg fun hw => hnotMade hw.1]

/-- Of a live variable nothing changes in a trial. -/
theorem Linked.core_tried_of_isLive (h : t.Linked none) (hv : t.vars.isLive v) :
    ((t.tried request relation).vars.get? v).map Variable.core =
      (t.vars.get? v).map Variable.core := by
  have hjoined := (h.draft request relation).joined
  rw [h.core_tried, hjoined.old v (hjoined.notMem_of_isLive hv)]
  rintro rfl
  exact Option.isSome_iff_ne_none.mp hv (h.artificial_fresh request relation).2

/-- The live variables stay live, and with them those made for the request where pivoting
failed. -/
theorem Linked.isLive_failed (h : t.Linked none) (hf : t.Failed request relation fault left)
    (v : VarId) : left.vars.isLive v ↔
      t.vars.isLive v ∨ v ∈ t.made request relation ∧ fault.isInternal := by
  have hsome := congrArg Option.isSome (h.core_failed hf v)
  rw [Option.isSome_map] at hsome
  refine (Bool.eq_iff_iff.mp hsome).trans ?_
  by_cases hv : v ∈ t.made request relation ∧ fault.isInternal
  · obtain ⟨x, hx, -⟩ := (h.draft request relation).joined.new v hv.1
    simp [hv, hx]
  · rw [if_neg hv, Option.isSome_map, or_iff_left hv]
    rfl

/-! ### What a refused request leaves -/

/-- A request that is refused without a trial leaves the variables where they stood, the penalties
and the rows. -/
theorem Linked.refused_of_not_tried (h : t.Linked none)
    (hf : t.Failed request relation fault left) (hfault : fault.isInfeasible)
    (hnot : ¬(t.draft request relation).2.Tried (t.draft request relation).1) :
    (∀ v, t.vars.isLive v → left.rowValue v = t.rowValue v) ∧
      left.goal.constant = t.goal.constant ∧ left.rows.length = t.rows.length := by
  cases hf with
  | unknown w => exact ⟨fun _ _ => rfl, rfl, rfl⟩
  | tried _ htried _ => exact absurd htried hnot
  | refused _ _ hleft =>
      have hdrafted := h.draft request relation
      have hreleased := hdrafted.linked.releaseRow
      have hnotMade : ∀ {v}, t.vars.isLive v → v ∉ t.made request relation :=
        hdrafted.joined.notMem_of_isLive
      refine ⟨fun v hv => ?_, ?_, ?_⟩
      · rw [hleft.rowValue_eq, hreleased.rowValue_foldl_discard (hnotMade hv)]
        exact h.rowValue_congr hreleased hdrafted.joined.rows v
      · rw [hleft.goal, constant_goal_foldl_discard]
        exact t.constant_goal_draft request relation
      · have hlength := hreleased.length_rows_foldl_discard hdrafted.joined.nodup
        have hzero : ((t.draft request relation).2.releaseRow
            (t.draft request relation).1.row).basicCount (t.made request relation) = 0 :=
          basicCount_eq_zero fun w hw hb =>
            hnotMade (h.isLive_of_isBasic ((isBasic_congr hdrafted.joined.rows w).mp hb)) hw
        rw [hleft.rows]
        exact (hzero ▸ hlength).trans (congrArg List.length hdrafted.joined.rows)

/-- A request that fails after a trial leaves the variables where the trial brought them and its
penalties, and loses as many rows as the variables define that go. -/
theorem Linked.failed_of_tried (h : t.Linked none)
    (hf : t.Failed request relation fault left) (hfault : fault.isInfeasible ∨ fault.isInternal)
    (htried : (t.draft request relation).2.Tried (t.draft request relation).1) :
    (∀ v, t.vars.isLive v → left.rowValue v = (t.tried request relation).rowValue v) ∧
      left.goal.constant = (t.tried request relation).goal.constant ∧
      left.rows.length + (t.tried request relation).basicCount (t.shed request relation fault) =
        t.rows.length + 1 := by
  obtain ⟨hnodup, hfresh⟩ := h.shed_fresh request relation fault
  cases hf with
  | unknown w => exact absurd hfault (by simp [Fault.isInfeasible, Fault.isInternal])
  | refused _ hnot _ => exact absurd htried hnot
  | tried _ _ hleft =>
      obtain ⟨hlinked, -, hlength⟩ := ((h.draft request relation).placeable h).trial
      have hclear : ({ t.tried request relation with phaseOne := none } :
          Tableau K Q).Linked none := hlinked.withoutPhaseOne
      refine ⟨fun v hv => ?_, ?_, ?_⟩
      · rw [hleft.rowValue_eq, hclear.rowValue_foldl_discard fun hmem =>
          Option.isSome_iff_ne_none.mp hv (hfresh v hmem)]
        rfl
      · rw [hleft.goal, constant_goal_foldl_discard]
      · rw [hleft.rows]
        refine (hclear.length_rows_foldl_discard hnodup).trans (hlength.trans ?_)
        rw [(h.draft request relation).joined.rows]

/-- Where pivoting did not fail, as many rows are left as there were, exactly if one row went with
a trial. -/
theorem Linked.length_rows_failed_iff (h : t.Linked none)
    (hf : t.Failed request relation fault left) (hinternal : ¬fault.isInternal) :
    left.rows.length = t.rows.length ↔
      (fault.isInfeasible → (t.draft request relation).2.Tried (t.draft request relation).1 →
        (t.tried request relation).basicCount (t.shed request relation fault) = 1) := by
  by_cases hfault : fault.isInfeasible
  · by_cases htried : (t.draft request relation).2.Tried (t.draft request relation).1
    · obtain ⟨-, -, hlength⟩ := h.failed_of_tried hf (.inl hfault) htried
      simp only [hfault, htried, forall_const]
      omega
    · obtain ⟨-, -, hlength⟩ := h.refused_of_not_tried hf hfault htried
      exact iff_of_true hlength fun _ hw => absurd hw htried
  · refine iff_of_true ?_ fun hw => absurd hw hfault
    cases hf with
    | unknown w => rfl
    | refused hw _ _ => exact absurd hw hfault
    | tried hw _ _ => exact absurd hw (not_or.mpr ⟨hfault, hinternal⟩)

end Tableau

namespace Solver

variable {K Q : Type} [Coefficient K] [Scalar Q] [Precision K Q] {s : Solver K Q}
  {request : Request K} {relation : Relation} {fault : Fault}

/-- A solver **tries** a request if it can define none of its draft's variables at once. -/
def Tries (s : Solver K Q) (request : Request K) (relation : Relation) : Prop :=
  (s.tableau.draft request relation).2.Tried (s.tableau.draft request relation).1

instance (s : Solver K Q) (request : Request K) (relation : Relation) :
    Decidable (s.Tries request relation) :=
  inferInstanceAs (Decidable
    ((s.tableau.draft request relation).2.Tried (s.tableau.draft request relation).1))

/-- A solver at the end of the trial of a request. -/
def tried (s : Solver K Q) (request : Request K) (relation : Relation) : Solver K Q :=
  { s with tableau := s.tableau.tried request relation }

/-- What a failed insertion leaves of a reachable solver. -/
theorem failed_add (h : s.Reachable) (hfault : (s.add request relation).1 = .error fault) :
    s.tableau.Failed request relation fault (s.add request relation).2.tableau := by
  obtain ⟨htableau, -, -, hresult⟩ := tableau_add s request relation
  rw [hresult] at hfault
  rw [htableau]
  exact h.consistent.linked.failed hfault

/-- An insertion that fails enters no constraint and takes none out. -/
theorem constraints_of_add_eq_error (h : s.Reachable)
    (hfault : (s.add request relation).1 = .error fault) :
    (s.add request relation).2.tableau.constraints = s.tableau.constraints := by
  obtain ⟨htableau, -, -, hresult⟩ := tableau_add s request relation
  rw [htableau]
  exact (h.consistent.linked.constraints_insert request relation).2 _ (hresult ▸ hfault)

/-- The live variables stay live, and with them those made for a request where pivoting failed. -/
theorem isLive_add_of_error (h : s.Reachable) (hfault : (s.add request relation).1 = .error fault)
    (v : VarId) : (s.add request relation).2.tableau.vars.isLive v ↔
      s.tableau.vars.isLive v ∨ v ∈ s.tableau.made request relation ∧ fault.isInternal :=
  h.consistent.linked.isLive_failed (failed_add h hfault) v

/-- After a refusal the same variables are live. -/
theorem isLive_add_of_refused (h : s.Reachable) {text : String}
    (hrefused : (s.add request relation).1 = .error (.infeasible text)) (v : VarId) :
    (s.add request relation).2.tableau.vars.isLive v ↔ s.tableau.vars.isLive v :=
  (isLive_add_of_error h hrefused v).trans
    (or_iff_left fun hw => absurd hw.2 (by simp [Fault.isInternal]))

/-! ### What can be read after a refusal -/

/-- A solver is **unchanged** in another if they give the variables the same values, and have the
same penalties, live variables and constraints, and equally many rows. -/
structure Unchanged (s left : Solver K Q) : Prop where
  valueOf_eq : ∀ v, left.valueOf v = s.valueOf v
  penalties_eq : left.tableau.goal.constant = s.tableau.goal.constant
  isLive_iff : ∀ v, left.tableau.vars.isLive v ↔ s.tableau.vars.isLive v
  constraints_eq : left.tableau.constraints = s.tableau.constraints
  length_rows : left.tableau.rows.length = s.tableau.rows.length

/-- The trial of a request is **traceless** if it moves no value and no penalty. -/
structure Traceless (s : Solver K Q) (request : Request K) (relation : Relation) : Prop where
  valueOf_eq : ∀ v, s.tableau.vars.isLive v → (s.tried request relation).valueOf v = s.valueOf v
  penalties_eq : (s.tried request relation).tableau.goal.constant = s.tableau.goal.constant

/-- A refused insertion changes nothing if it leaves as many rows as there were and its trial, if
there was one, is traceless. -/
theorem unchanged_iff_length_rows (h : s.Reachable) {text : String}
    (hrefused : (s.add request relation).1 = .error (.infeasible text)) :
    s.Unchanged (s.add request relation).2 ↔
      (s.add request relation).2.tableau.rows.length = s.tableau.rows.length ∧
        (s.Tries request relation → s.Traceless request relation) := by
  have hlinked := h.consistent.linked
  have hf := failed_add h hrefused
  have hlive := isLive_add_of_refused h hrefused
  have hcons := constraints_of_add_eq_error h hrefused
  have hcore : ∀ v, ((s.add request relation).2.tableau.vars.get? v).map Variable.core =
      (s.tableau.vars.get? v).map Variable.core := fun v => by
    rw [hlinked.core_failed hf, if_neg fun hw => absurd hw.2 (by simp [Fault.isInternal])]
  by_cases htried : s.Tries request relation
  · obtain ⟨hrow, hpenalties, -⟩ := hlinked.failed_of_tried hf (.inl rfl) htried
    have hvalueOf : ∀ v, s.tableau.vars.isLive v →
        (s.add request relation).2.valueOf v = (s.tried request relation).valueOf v :=
      fun v hv => congrArg Precision.narrow (Tableau.value_congr
        ((hcore v).trans (hlinked.core_tried_of_isLive hv).symm) fun _ => hrow v hv)
    constructor
    · intro hsame
      refine ⟨hsame.length_rows, fun _ => ⟨fun v hv => ?_, ?_⟩⟩
      · rw [← hvalueOf v hv, hsame.valueOf_eq]
      · exact hpenalties.symm.trans hsame.penalties_eq
    · rintro ⟨hrows, htrace⟩
      obtain ⟨hmoved, hpaid⟩ := htrace htried
      refine ⟨fun v => ?_, hpenalties.trans hpaid, hlive, hcons, hrows⟩
      by_cases hv : s.tableau.vars.isLive v
      · rw [hvalueOf v hv, hmoved v hv]
      · exact congrArg Precision.narrow (Tableau.value_congr (hcore v) fun hlive => absurd hlive hv)
  · obtain ⟨hrow, hpenalties, hrows⟩ := hlinked.refused_of_not_tried hf rfl htried
    refine iff_of_true ?_ ⟨hrows, fun hw => absurd hw htried⟩
    exact ⟨fun v => congrArg Precision.narrow (Tableau.value_congr (hcore v) (hrow v)), hpenalties,
      hlive, hcons, hrows⟩

/-- **Refusals.** An insertion that is refused leaves the live variables and the constraints as they
were. It leaves everything else that can be read as it was, exactly if the request was not tried,
or its trial is traceless and one row went with it: the exchanges of a trial are not taken back. -/
theorem Reachable.unchanged_iff (h : s.Reachable) {text : String}
    (hrefused : (s.add request relation).1 = .error (.infeasible text)) :
    (∀ v, (s.add request relation).2.tableau.vars.isLive v ↔ s.tableau.vars.isLive v) ∧
      (s.add request relation).2.tableau.constraints = s.tableau.constraints ∧
      (s.Unchanged (s.add request relation).2 ↔
        (s.Tries request relation → s.Traceless request relation ∧
          (s.tableau.tried request relation).basicCount
            (s.tableau.shed request relation (.infeasible text)) = 1)) := by
  refine ⟨isLive_add_of_refused h hrefused, constraints_of_add_eq_error h hrefused, ?_⟩
  rw [unchanged_iff_length_rows h hrefused, h.consistent.linked.length_rows_failed_iff
    (failed_add h hrefused) (by simp [Fault.isInternal])]
  constructor
  · rintro ⟨hone, htrace⟩ htried
    exact ⟨htrace htried, hone rfl htried⟩
  · intro hboth
    exact ⟨fun _ htried => (hboth htried).2, fun htried => (hboth htried).1⟩

/-- A solver in which a variable is held between nought and ten. -/
def bounded : Solver Float Float32 :=
  (empty {}).run [.declare .external "x", .add (pinRequest ⟨0⟩ (0 : Float32)) .ge,
    .add (pinRequest ⟨0⟩ (10 : Float32)) .le]

/-- That the variable be at least twenty is refused, but the trial has moved it: its value was
nought and is ten. -/
theorem unchanged_iff_of_bounded :
    let left := (bounded.add (pinRequest ⟨0⟩ (20 : Float32)) .ge).2
    bounded.valueOf ⟨0⟩ ≠ left.valueOf ⟨0⟩ ∧ ¬bounded.Unchanged left := by
  intro left
  have hreachable : bounded.Reachable := ⟨_, _, rfl⟩
  have hrefused : (bounded.add (pinRequest ⟨0⟩ (20 : Float32)) .ge).1 =
      .error (.infeasible "x1 - 20 >= 0 (fixed)") := by decide +kernel
  have htries : bounded.Tries (pinRequest ⟨0⟩ (20 : Float32)) .ge := by decide +kernel
  have hmoved : (bounded.tried (pinRequest ⟨0⟩ (20 : Float32)) .ge).valueOf ⟨0⟩ ≠
      bounded.valueOf ⟨0⟩ := by decide +kernel
  refine ⟨by decide +kernel, fun hsame => hmoved ?_⟩
  obtain ⟨htrace, -⟩ := (Reachable.unchanged_iff hreachable hrefused).2.2.mp hsame htries
  exact htrace.valueOf_eq ⟨0⟩ (by decide +kernel)

/-! ### Leaks -/

/-- A solver **leaks nothing** into another if that has the same live variables, constraints and
counts of folds and equally many live rows, and if its goal speaks of no other variables. -/
structure Leakless (s left : Solver K Q) : Prop where
  isLive_iff : ∀ v, left.tableau.vars.isLive v ↔ s.tableau.vars.isLive v
  constraints_eq : left.tableau.constraints = s.tableau.constraints
  folds_eq : ∀ v, s.tableau.vars.isLive v →
    (left.tableau.vars.get? v).map Variable.folds = (s.tableau.vars.get? v).map Variable.folds
  liveCount_eq : left.tableau.rowSlots.liveCount = s.tableau.rowSlots.liveCount
  goal_isLive : ∀ v ∈ left.tableau.goal.vars, s.tableau.vars.isLive v

/-- The counts of folds of the live variables stay, whatever an insertion fails of. -/
theorem folds_of_add_eq_error (h : s.Reachable) (hfault : (s.add request relation).1 = .error fault)
    {v : VarId} (hv : s.tableau.vars.isLive v) :
    ((s.add request relation).2.tableau.vars.get? v).map Variable.folds =
      (s.tableau.vars.get? v).map Variable.folds := by
  have hcore := h.consistent.linked.core_failed_of_isLive (failed_add h hfault) hv
  have hfolds := congrArg (Option.map fun x : Variable Q => x.folds) hcore
  rwa [Option.map_map, Option.map_map] at hfolds

/-- A failed insertion leaks nothing if pivoting did not fail and as many rows are left as there
were. The marker is always made, so it would be live where pivoting failed. -/
theorem leakless_iff_length_rows (h : s.Reachable)
    (hfault : (s.add request relation).1 = .error fault) :
    s.Leakless (s.add request relation).2 ↔
      ¬fault.isInternal ∧
        (s.add request relation).2.tableau.rows.length = s.tableau.rows.length := by
  have hlinked := h.consistent.linked
  have hleft : (s.add request relation).2.tableau.Linked none :=
    (h.perform (.add request relation)).consistent.linked
  have hlive := isLive_add_of_error h hfault
  have hrows : (s.add request relation).2.tableau.rowSlots.liveCount =
      s.tableau.rowSlots.liveCount ↔
        (s.add request relation).2.tableau.rows.length = s.tableau.rows.length := by
    rw [hleft.liveCount_rowSlots, hlinked.liveCount_rowSlots]
  constructor
  · intro hleakless
    refine ⟨fun hinternal => ?_, hrows.mp hleakless.liveCount_eq⟩
    have hmarker : (s.tableau.draft request relation).1.constraint.tag.marker ∈
        s.tableau.made request relation := List.mem_cons_self
    exact (hlinked.draft request relation).joined.notMem_of_isLive
      ((hleakless.isLive_iff _).mp ((hlive _).mpr (.inr ⟨hmarker, hinternal⟩))) hmarker
  · rintro ⟨hinternal, hlength⟩
    have hsame : ∀ v, (s.add request relation).2.tableau.vars.isLive v ↔
        s.tableau.vars.isLive v := fun v =>
      (hlive v).trans (or_iff_left fun hw => hinternal hw.2)
    refine ⟨hsame, constraints_of_add_eq_error h hfault, fun v => folds_of_add_eq_error h hfault,
      hrows.mpr hlength, fun v hv => ?_⟩
    obtain ⟨hgoal, -⟩ := (hleft.goal _ List.mem_cons_self).term v hv
    exact (hsame v).mp hgoal

/-- **Leaks.** An insertion that fails leaves the constraints and the counts of folds as they were,
and of the variables made for it those stay whose request pivoting failed on. It leaks nothing,
exactly if pivoting did not fail, and one row went with the trial of a request that was refused
after one. -/
theorem Reachable.leakless_iff (h : s.Reachable)
    (hfault : (s.add request relation).1 = .error fault) :
    (s.add request relation).2.tableau.constraints = s.tableau.constraints ∧
      (∀ v, (s.add request relation).2.tableau.vars.isLive v ↔
        s.tableau.vars.isLive v ∨ v ∈ s.tableau.made request relation ∧ fault.isInternal) ∧
      (∀ v, s.tableau.vars.isLive v →
        ((s.add request relation).2.tableau.vars.get? v).map Variable.folds =
          (s.tableau.vars.get? v).map Variable.folds) ∧
      (s.Leakless (s.add request relation).2 ↔
        ¬fault.isInternal ∧
          (fault.isInfeasible → s.Tries request relation →
            (s.tableau.tried request relation).basicCount
              (s.tableau.shed request relation fault) = 1)) := by
  refine ⟨constraints_of_add_eq_error h hfault, isLive_add_of_error h hfault,
    fun v => folds_of_add_eq_error h hfault, ?_⟩
  rw [leakless_iff_length_rows h hfault]
  exact and_congr_right fun hinternal =>
    h.consistent.linked.length_rows_failed_iff (failed_add h hfault) hinternal

/-- A solver that may not make an exchange, in which a variable is at least five. -/
def halted : Solver Float Float32 :=
  (empty { maxIterations := some 0 }).run
    [.declare .external "x", .add (pinRequest ⟨0⟩ (5 : Float32)) .ge]

/-- Whether the variable can be at least seven is not found out, and a slack variable leaks. -/
theorem leakless_iff_of_halted :
    ¬halted.Leakless (halted.add (pinRequest ⟨0⟩ (7 : Float32)) .ge).2 := by
  have hreachable : halted.Reachable := ⟨_, _, rfl⟩
  have hfault : (halted.add (pinRequest ⟨0⟩ (7 : Float32)) .ge).1 =
      .error (.iterationLimit 0) := by decide +kernel
  intro hleakless
  exact ((Reachable.leakless_iff hreachable hfault).2.2.2.mp hleakless).1 rfl

end Solver

end LexSimplex
