import LexSimplex.Proofs.FoldCounts
import LexSimplex.Proofs.HardRequests
import LexSimplex.Proofs.Satisfiability

/-!
# The values that a pin accepts

Pinning a variable for the first time takes one of two ways. Where the tableau speaks of the
variable, a hidden equality is added, and that decides whether some solution which respects the
kinds gives the variable the value. Where it does not, there is nothing to add, and the pin is
accepted at once. Any value will do then for an external variable; but a restricted one has no
solution with a negative value, and its pin goes **unchecked**. That is the only case in which a
pin accepts a value that no solution has.

Before that question there is another: a variable that is neither pinned nor held might be refused
a pin because constraints took it in as a number. It is not so, in any arithmetic, as constraints
take in only what is noted.

## Main definitions

* `Solver.Accounted`: constraints took in noted variables alone.
* `Tableau.Attains`: a solution gives a variable a value.
* `Solver.Unchecked`: a restricted variable outside the tableau, and a negative value.

## Main results

* `Solver.Reachable.pin_eq_attachPin`: a variable that is neither pinned nor held is pinned as for
  the first time.
* `Tableau.compatible_pinRequest_iff`: the hidden equality is compatible exactly with the values
  that are attained.
* `Solver.Reachable.pin_decides`: pinning decides whether a value is attained, unless it goes
  unchecked.
-/

namespace LexSimplex

open Function (update update_self update_of_ne)

/-! ### What constraints took in -/

namespace Solver

variable {K Q : Type} [Coefficient K] {s s' : Solver K Q} {v w : VarId} {x : Q}

/-- A solver is **accounted** for if constraints took in noted variables alone. -/
def Accounted (s : Solver K Q) : Prop :=
  ∀ v, ¬s.Noted v → s.isIdle v

omit [Coefficient K] in
/-- A flag, and a note of its variable, leave a solver accounted for, if that variable is noted or
idle. -/
theorem Accounted.of_flag (h : s.Accounted) {f : Variable Q → Variable Q}
    (htableau : s'.tableau = s.tableau.modifyVar v f) (hf : ∀ x, (f x).folds = x.folds)
    (hnoted : ∀ w, w ≠ v → s.Noted w → s'.Noted w) (hv : ¬s'.Noted v → s.isIdle v) :
    s'.Accounted := by
  intro w hw
  refine (isIdle_modifyVar htableau hf w).mpr ?_
  by_cases hwv : w = v
  · subst hwv
    exact hv hw
  · exact h w fun hnote => hw (hnoted w hwv hnote)

variable [Scalar Q] [Precision K Q]

/-- A constraint that is entered takes in flagged variables, and leaves the others idle. -/
theorem isIdle_of_entered {c : Constraint K} {t : Tableau K Q} (hc : t.Entered c s'.tableau)
    (hidle : ∀ y, t.vars.get? w = some y → y.folds = 0)
    (hflag : ∀ y, t.vars.get? w = some y → y.pinned = false) : s'.isIdle w := by
  refine isIdle_iff.mpr fun y hy => ?_
  rcases hc.grown.of_get? hy with ⟨-, hplain⟩ | ⟨x, hx, hcore⟩
  · exact hplain.folds_eq
  · have hnot : w ∉ c.tag.folded := by
      rw [hc.folded_eq, Tableau.pinnedIn, List.mem_filter, hx]
      rintro ⟨-, hpinned⟩
      rw [Option.any_some, hflag x hx] at hpinned
      exact absurd hpinned (by simp)
    have hfolds : y.folds = x.folds + c.tag.folded.count w := (congrArg Variable.folds hcore :)
    rw [hfolds, hidle x hx, List.count_eq_zero.mpr hnot]

/-- A **move** leaves a solver accounted for. -/
theorem Accounted.move {a : Act K Q} (h : s.Accounted) (hs : s.Annotated) (hmove : s.Move a s') :
    s'.Accounted := by
  cases hmove with
  | quiet ht hpins hholds =>
      intro w hw
      rw [Noted, hpins, hholds] at hw
      refine isIdle_iff.mpr fun y hy => ?_
      rcases ht.of_get? hy with ⟨-, hplain⟩ | ⟨x, hx, -, -, hfolds, -⟩
      · exact hplain.folds_eq
      · rw [hfolds, isIdle_iff.mp (h w hw) x hx]
  | enter _ hc =>
      exact fun w hw => isIdle_of_entered hc (isIdle_iff.mp (h w hw))
        fun y hy => hs.pinned_eq_false hw hy
  | @remove id c _ hc =>
      intro w hw
      have hidle := isIdle_remove hs.wellFormed id (h w hw)
      rwa [Tableau.remove, hc] at hidle
  | note x _ _ _ _ =>
      exact h.of_flag rfl (fun _ => rfl) (fun w _ hnote => noted_notePin_iff.mpr (.inr hnote))
        fun hv => absurd (noted_notePin_iff.mpr (.inl rfl)) hv
  | take x _ _ _ =>
      refine h.of_flag rfl (fun _ => rfl) (fun w hw hnote => noted_notePin_iff.mpr (.inr ?_))
        fun hv => absurd (noted_notePin_iff.mpr (.inl rfl)) hv
      exact hnote.imp_right fun hheld => Assoc.mem_keys_erase.mpr ⟨hw, hheld⟩
  | flag _ _ => exact h.of_flag rfl (fun _ => rfl) (fun _ _ hnote => hnote) fun hv => h _ hv
  | @free v hidle =>
      refine h.of_flag rfl (fun _ => rfl) (fun w hw hnote => ?_) fun hv => ?_
      · exact hnote.imp_left fun hpin => Assoc.mem_keys_erase.mpr ⟨hw, hpin⟩
      · by_cases hpin : v ∈ s.pins.keys
        · exact hidle hpin
        · exact h v fun hnote => hv (.inr (hnote.resolve_left hpin))
  | @drop v hidle =>
      intro w hw
      by_cases hwv : w = v
      · exact hwv ▸ hidle
      · refine h w fun hnote => hw (hnote.imp_right fun hheld => ?_)
        exact Assoc.mem_keys_erase.mpr ⟨hwv, hheld⟩
  | keep _ _ _ =>
      exact h.of_flag rfl (fun _ => rfl) (fun w _ hnote => noted_noteHold_iff.mpr (.inr hnote))
        fun hv => absurd (noted_noteHold_iff.mpr (.inl rfl)) hv
  | @enterHold v y c t' _ _ _ hc _ =>
      intro w hw
      obtain ⟨hwv, hnoted⟩ := not_or.mp fun hnote => hw (noted_noteHold_iff.mpr hnote)
      have hsame : (s.tableau.modifyVar v Variable.unpin).vars.get? w =
          s.tableau.vars.get? w := by
        rw [Tableau.get?_modifyVar, if_neg hwv]
      exact isIdle_of_entered hc (hsame ▸ isIdle_iff.mp (h w hnoted))
        (hsame ▸ fun y hy => hs.pinned_eq_false hnoted hy)

/-- Every reachable solver is accounted for. -/
theorem Reachable.accounted (h : s.Reachable) : s.Accounted := by
  refine (h.induction (p := fun s => s.Reachable ∧ s.Accounted)
    (fun settings => ⟨reachable_empty settings, fun w _ => ?_⟩)
    fun s command hs => ⟨hs.1.perform command, ?_⟩).2
  · exact isIdle_iff.mpr fun y hy => absurd hy (by
      simp [empty, Tableau.empty, VariablePool.empty, VariablePool.get?, Pool.empty, Pool.get?])
  · have hannotated := hs.1.annotated
    refine hannotated.path_perform command (fun kind stem _ => ?_) (fun _ => ?_) fun hpath => ?_
    · intro w hw
      obtain ⟨-, label, hget⟩ := s.get?_declare kind stem
      refine isIdle_iff.mpr fun y hy => ?_
      rw [hget] at hy
      split at hy
      · exact Option.some.inj hy ▸ rfl
      · exact isIdle_iff.mp (hs.2 w hw) y hy
    · intro w _
      exact isIdle_iff.mpr fun y hy =>
        absurd ((VariablePool.get?_reset s.tableau.vars w).symm.trans hy) (by simp)
    · exact (hpath.keeps (p := fun s => s.Accounted ∧ s.Annotated)
        (fun _ _ _ hp _ hmove => ⟨hp.1.move hp.2 hmove, hp.2.move hmove⟩)
        ⟨hs.2, hannotated⟩).1

/-- A variable that is not noted **is pinned as for the first time**. -/
theorem Reachable.pin_eq_attachPin (h : s.Reachable) (hv : s.tableau.vars.isLive v)
    (hnoted : ¬s.Noted v) (x : Q) : s.pin v x = s.attachPin v x := by
  obtain ⟨y, hy⟩ := VariablePool.isLive_iff.mp hv
  have hfixed := fixedValue?_eq_none hy (fun hheld => hnoted (.inr hheld)) (h.accounted v hnoted)
  rw [pin, hy]
  dsimp only
  rw [hfixed]
  dsimp only
  rw [if_neg fun hpin => hnoted (.inl (Assoc.contains_iff.mp hpin))]

end Solver

/-! ### Values that are attained -/

namespace Tableau

variable {t : Tableau Rat Rat} {v : VarId} {x : Rat}

/-- A variable **attains** a value if a solution that respects the kinds gives it that value. -/
def Attains (t : Tableau Rat Rat) (v : VarId) (x : Rat) : Prop :=
  ∃ a, t.Satisfies a ∧ t.Respects a ∧ a v = x

/-- The **hidden equality** of a pin is compatible exactly with the values that are attained. -/
theorem compatible_pinRequest_iff {y : Variable Rat} (hy : t.vars.get? v = some y)
    (hfolded : y.isFolded = false) (x : Rat) :
    t.Compatible (Solver.pinRequest v x) .eq ↔ t.Attains v x := by
  obtain ⟨hterms, hconst⟩ := pinRequest_expr v x
  refine (compatible_iff_of_hard rfl rfl).trans (exists_congr fun a => and_congr_right fun _ =>
    and_congr_right fun _ => ?_)
  have hfold : t.fold a v = a v := by
    rw [fold, hy, Option.any_some, hfolded]
    rfl
  have heval : (Solver.pinRequest v x : Request Rat).expr.eval (t.fold a) = a v - x := by
    rw [LinExpr.eval, hterms, hconst, List.map_singleton, List.sum_singleton, hfold]
    ring
  rw [Relation.Holds, heval, sub_eq_zero]

/-- A variable that solutions do not depend on attains what its kind admits. -/
theorem BasicFeasible.attains_iff_of_freeOf (h : t.BasicFeasible) (hl : t.Linked none)
    (hv : t.FreeOf v) : t.Attains v x ↔ (t.kind v).Admits x := by
  constructor
  · rintro ⟨a, -, hrespects, rfl⟩
    exact hrespects v
  · intro hadmits
    refine ⟨update t.rowValue v x, hv _ x hl.satisfies_rowValue, fun w => ?_, update_self ..⟩
    by_cases hw : w = v
    · rw [hw, update_self]
      exact hadmits
    · rw [update_of_ne hw]
      exact h.respects_rowValue hl w

end Tableau

namespace Solver

variable {s : Solver Rat Rat} {v : VarId} {x : Rat}

/-! ### What a pin decides -/

/-- A pin goes **unchecked** if its variable is restricted, the tableau does not speak of it, and
the value is negative. -/
def Unchecked (s : Solver Rat Rat) (v : VarId) (x : Rat) : Prop :=
  s.isReferenced v = false ∧ (s.tableau.kind v).restricted ∧ x < 0

/-- Attaching a pin where the tableau speaks of the variable succeeds if adding its hidden equality
does. -/
theorem attachPin_fst (hv : s.isReferenced v) (x : Rat) :
    (s.attachPin v x).1 = (s.add (pinRequest v x) .eq).1.map fun _ => () := by
  rw [attachPin, if_pos hv]
  split
  · rename_i heq
    rw [heq]
    rfl
  · rename_i heq
    rw [heq]
    rfl

/-- Where the tableau does not speak of a variable, it attains what its kind admits. -/
theorem Reachable.attains_iff (h : s.Reachable) (hfeasible : s.tableau.BasicFeasible)
    (hkind : s.tableau.kind v ≠ .constant) (href : s.isReferenced v = false) (x : Rat) :
    s.tableau.Attains v x ↔ ((s.tableau.kind v).restricted → 0 ≤ x) := by
  have hlinked := h.regular.wellFormed.linked
  exact (hfeasible.attains_iff_of_freeOf hlinked
    (freeOf_of_not_isReferenced hlinked hkind href)).trans
    (and_iff_left fun hconstant => absurd hconstant hkind)

/-- Where the tableau speaks of a variable, attaching a pin asks whether its hidden equality is
compatible, and so whether the value is attained. -/
theorem Reachable.attachPin_decides (h : s.Reachable) (hfeasible : s.tableau.BasicFeasible)
    (hlive : s.tableau.vars.isLive v) (hkind : s.tableau.kind v ≠ .constant)
    (hnoted : ¬s.Noted v) (href : s.isReferenced v) (x : Rat) :
    ((s.attachPin v x).1 = .ok () ∧ s.tableau.Attains v x) ∨
    ((∃ text, (s.attachPin v x).1 = .error (.infeasible text)) ∧ ¬s.tableau.Attains v x) ∨
    ∃ limit, (s.attachPin v x).1 = .error (.iterationLimit limit) := by
  obtain ⟨y, hy⟩ := VariablePool.isLive_iff.mp hlive
  have hfolded : y.isFolded = false := by
    rw [Variable.isFolded, h.annotated.pinned_eq_false hnoted hy, Bool.false_or,
      decide_eq_false_iff_not]
    exact (Tableau.kind_of_get? hy) ▸ hkind
  have hvars : ∀ w ∈ (pinRequest v x : Request Rat).expr.vars, s.tableau.vars.isLive w :=
    fun w hw => vars_pinRequest v x w hw ▸ hlive
  rw [attachPin_fst href, ← Tableau.compatible_pinRequest_iff hy hfolded]
  rcases h.add_verdict hfeasible hvars .eq with
    ⟨⟨id, hid⟩, hcompatible⟩ | ⟨⟨text, htext⟩, hnot⟩ | ⟨limit, hlimit⟩
  · exact .inl ⟨by rw [hid]; rfl, hcompatible⟩
  · exact .inr (.inl ⟨⟨text, by rw [htext]; rfl⟩, hnot⟩)
  · exact .inr (.inr ⟨limit, by rw [hlimit]; rfl⟩)

/-- **Pinning decides whether a value is attained**, for a variable that is neither pinned nor held
and no constant, in every reachable solver whose tableau is basic-feasible. A value is accepted only
if it is attained, and refused as a contradiction only if it is not, unless the limit on exchanges
is reached. The exception is a pin that goes unchecked: it is accepted, and no solution has the
value. -/
theorem Reachable.pin_decides (h : s.Reachable) (hfeasible : s.tableau.BasicFeasible)
    (hlive : s.tableau.vars.isLive v) (hkind : s.tableau.kind v ≠ .constant)
    (hpinned : s.isPinned v = false) (hheld : s.isHeld v = false) (x : Rat) :
    (s.Unchecked v x → (s.pin v x).1 = .ok () ∧ ¬s.tableau.Attains v x) ∧
    (¬s.Unchecked v x →
      ((s.pin v x).1 = .ok () ∧ s.tableau.Attains v x) ∨
      ((∃ text, (s.pin v x).1 = .error (.infeasible text)) ∧ ¬s.tableau.Attains v x) ∨
      ∃ limit, (s.pin v x).1 = .error (.iterationLimit limit)) := by
  have hnoted : ¬s.Noted v := not_noted_iff.mpr ⟨hpinned, hheld⟩
  rw [h.pin_eq_attachPin hlive hnoted]
  cases href : s.isReferenced v with
  | false =>
      have hattains := h.attains_iff hfeasible hkind href x
      have hok : (s.attachPin v x).1 = .ok () := by
        rw [attachPin, href]
        rfl
      refine ⟨fun hunchecked => ⟨hok, fun hattained => ?_⟩, fun hchecked => .inl ⟨hok, ?_⟩⟩
      · exact absurd (hattains.mp hattained hunchecked.2.1) (not_le.mpr hunchecked.2.2)
      · exact hattains.mpr fun hrestricted =>
          not_lt.mp fun hneg => hchecked ⟨href, hrestricted, hneg⟩
  | true =>
      refine ⟨fun hunchecked => absurd (href.symm.trans hunchecked.1) (by simp), fun _ => ?_⟩
      exact h.attachPin_decides hfeasible hlive hkind hnoted href x

/-- A solver with a slack variable of its caller's, in no constraint. -/
def loose : Solver Rat Rat :=
  (empty {}).run [.declare .slack ""]

/-- A solver with two slack variables of its caller's that are to be equal. -/
def tied : Solver Rat Rat :=
  (empty {}).run
    [.declare .slack "", .declare .slack "", .add (Layout.offset ⟨0⟩ ⟨1⟩ (0 : Rat)) .eq]

/-- No solution gives a slack variable a negative value. It can be pinned to one all the same where
no constraint speaks of it, and is refused where one does. -/
theorem pin_decides_of_loose :
    loose.Reachable ∧ loose.tableau.BasicFeasible ∧ (loose.pin ⟨0⟩ (-5)).1 = .ok () ∧
      ¬loose.tableau.Attains ⟨0⟩ (-5) ∧ tied.Reachable ∧ tied.tableau.BasicFeasible ∧
      (∃ text, (tied.pin ⟨0⟩ (-5)).1 = .error (.infeasible text)) ∧
      ¬tied.tableau.Attains ⟨0⟩ (-5) := by
  have hloose : loose.Reachable := ⟨{}, _, rfl⟩
  have htied : tied.Reachable := ⟨{}, _, rfl⟩
  have hfeasible : loose.tableau.BasicFeasible := by decide +kernel
  have hfeasible' : tied.tableau.BasicFeasible := by decide +kernel
  obtain ⟨hunchecked, -⟩ := hloose.pin_decides (v := ⟨0⟩) hfeasible (by decide +kernel)
    (by decide +kernel) (by decide +kernel) (by decide +kernel) (-5)
  obtain ⟨hok, hnot⟩ := hunchecked ⟨by decide +kernel, by decide +kernel, by decide +kernel⟩
  obtain ⟨-, hchecked⟩ := htied.pin_decides (v := ⟨0⟩) hfeasible' (by decide +kernel)
    (by decide +kernel) (by decide +kernel) (by decide +kernel) (-5)
  have href : tied.isReferenced ⟨0⟩ = true := by decide +kernel
  have hrefused : (tied.pin ⟨0⟩ (-5)).1.mapError Fault.isInfeasible = .error true := by
    decide +kernel
  rcases hchecked fun h => absurd (href.symm.trans h.1) (by simp) with
    ⟨hpin, -⟩ | ⟨htext, hnot'⟩ | ⟨limit, hlimit⟩
  · rw [hpin] at hrefused
    exact absurd hrefused (by simp [Except.mapError])
  · exact ⟨hloose, hfeasible, hok, hnot, htied, hfeasible', htext, hnot'⟩
  · rw [hlimit] at hrefused
    exact absurd hrefused (by simp [Except.mapError, Fault.isInfeasible])

end Solver

end LexSimplex
