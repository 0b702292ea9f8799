import LexSimplex.Proofs.FoldedValues

/-!
# New variables

A new variable gets the least handle that is free, which another variable may have had before.
The tableau keeps nothing of that one: a new variable is in no row and no objective, nothing is
folded in, and it has no flag. The notes of pins and holds are kept by handle beside the tableau,
and they outlive their variable in one case only: a caller pinned a variable that was made for a
constraint, and the constraint was removed. Such a note is **stale**, and the next variable with
the handle counts as pinned or held. Pinning it takes out the constraint that was noted.

As long as nobody pins variables that were made for constraints, no note is stale, and a new
variable starts without a past. Nothing here depends on the arithmetic, or on handles of
constraints not coming round: no row speaks of a new variable, so nothing is entered to pin it.

## Main definitions

* `Solver.Stale`: a note about a variable that is gone.
* `Tableau.Apart`: a live variable that was not made for a constraint.
* `Tableau.Unseen`: a variable of which no row speaks.
* `Session.Tactful`: a command pins no variable that was made for a constraint.

## Main results

* `Tableau.Apart.move`: a variable that is apart stays so.
* `Session.Run.not_stale`: as long as no variable of a constraint is pinned, no note is stale.
* `Tableau.Unseen.remove`: no row comes to speak of a variable where a constraint is taken out.
* `Solver.Annotated.hasConstraint_pin`: what pinning an unseen variable takes out.
* `Solver.Reachable.declare_outcome`: what a new variable brings with it.
-/

namespace LexSimplex

variable {K Q : Type} [Coefficient K]

namespace Tableau

variable {t t' : Tableau K Q} {v : VarId} {id : ConstraintId} {c : Constraint K}

/-! ### Variables that no constraint brought -/

/-- A variable is **apart** if it is live and was not made for a constraint that is there. -/
def Apart (t : Tableau K Q) (v : VarId) : Prop :=
  t.vars.isLive v ∧ ∀ id c, t.constraints.get? id = some c → v ∉ c.tag.vars

omit [Coefficient K] in

/-- Changing a variable leaves apart what was. -/
theorem Apart.modifyVar (h : t.Apart v) (w : VarId) (f : Variable Q → Variable Q) :
    (t.modifyVar w f).Apart v :=
  ⟨(t.isLive_flag w v f).mpr h.1, h.2⟩

/-- A constraint that is taken out takes its own variables with it, and no other. -/
theorem Apart.withdraw (h : t.Apart v) (hwell : t.WellFormed)
    (hc : t.constraints.get? id = some c) : (t.withdraw id c.tag).Apart v := by
  have ht := hwell.withdrawn hc
  obtain ⟨x, hx⟩ := VariablePool.isLive_iff.mp h.1
  obtain ⟨x', hx', -⟩ := ht.old v x (h.2 id c hc) hx
  refine ⟨VariablePool.isLive_iff.mpr ⟨x', hx'⟩, fun id' c' hc' => ?_⟩
  rw [ht.constraints_eq] at hc'
  exact h.2 id' c' (Assoc.get?_erase_eq_some_iff.mp hc').2

variable [Scalar Q]

/-- A quiet change leaves apart what was. -/
theorem Apart.quiet (h : t.Apart v) (ht : t.Quiet t') : t'.Apart v := by
  obtain ⟨x, hx⟩ := VariablePool.isLive_iff.mp h.1
  obtain ⟨x', hx', -⟩ := ht.old v x hx
  exact ⟨VariablePool.isLive_iff.mpr ⟨x', hx'⟩, ht.constraints_eq ▸ h.2⟩

/-- The variables of a constraint that is entered were not live before. -/
theorem Apart.enter [Precision K Q] (h : t.Apart v) (hc : t.Entered c t') : t'.Apart v := by
  obtain ⟨x, hx⟩ := VariablePool.isLive_iff.mp h.1
  obtain ⟨x', hx', -⟩ := hc.grown.old v x hx
  refine ⟨VariablePool.isLive_iff.mpr ⟨x', hx'⟩, fun id' c' hc' => ?_⟩
  rw [hc.constraints_eq] at hc'
  obtain ⟨-, rfl⟩ | ⟨-, hc'⟩ := Assoc.get?_insert_eq_some_iff.mp hc'
  · exact fun hmem => VariablePool.not_isLive_of_get? (hc.fresh v hmem) h.1
  · exact h.2 id' c' hc'

/-- A variable that is apart **stays** so, whatever a move does. -/
theorem Apart.move [Precision K Q] {s s' : Solver K Q} {a : Act K Q} (h : s.tableau.Apart v)
    (hs : s.Annotated) (hmove : s.Move a s') : s'.tableau.Apart v := by
  cases hmove with
  | quiet ht _ _ => exact h.quiet ht
  | enter _ hc => exact h.enter hc
  | remove _ hc => exact h.withdraw hs.wellFormed hc
  | note _ _ _ _ _ => exact h.modifyVar _ _
  | take _ _ _ _ => exact h.modifyVar _ _
  | flag _ _ => exact h.modifyVar _ _
  | free _ => exact h.modifyVar _ _
  | drop _ => exact h
  | keep _ _ _ => exact h.modifyVar _ _
  | enterHold _ _ _ hc _ => exact (h.modifyVar _ _).enter hc

/-! ### Variables that no row speaks of -/

/-- A variable is **unseen** if it is basic in no row and has a term in none. -/
def Unseen (t : Tableau K Q) (v : VarId) : Prop :=
  ∀ r ∈ t.rows, r.basic ≠ v ∧ v ∉ r.expr.vars

omit [Coefficient K] [Scalar Q] in

/-- A variable that is absent is unseen. -/
theorem Absent.unseen (h : t.Absent v) : t.Unseen v :=
  fun r hr => ⟨fun hb => h.not_isBasic ⟨r, hr, hb⟩, h.notMem_row r hr⟩

namespace Unseen

omit [Scalar Q]

/-- The row through which a marker is replaced does not speak of the variable either. -/
theorem eliminated (h : t.Unseen v) (hl : t.Linked none) {r : Row K} (hr : r ∈ t.rows)
    (m : VarId) : (t.eliminated r m).Unseen v := by
  intro s hs
  have hs : s ∈ ((t.detach r).substitute m (redefined r m).expr).rows := hs
  rw [(hl.detach hr).rows_substitute] at hs
  obtain ⟨q, hq, rfl⟩ := List.mem_map.mp hs
  have hq : q ∈ t.rows := ((hl.mem_rows_detach hr q).mp hq).1
  refine ⟨(h q hq).1, fun hv => ?_⟩
  rcases LinExpr.mem_of_mem_substitute (hl.row q hq).nodup hv with hv | ⟨-, hv⟩
  · rcases (LinExpr.mem_of_mem_exchange (hl.row r hr).nodup hv).2 with heq | hv
    · exact (h r hr).1 heq.symm
    · exact (h r hr).2 hv
  · exact (h q hq).2 hv

/-- A variable stays unseen where an equation is taken out. -/
theorem removeEquation (h : t.Unseen v) (hl : t.Linked none) (m : VarId) :
    (t.removeEquation m).Unseen v := by
  refine removeEquation_cases (p := fun t' => t'.Unseen v) (fun r hdef s hs => ?_)
    (fun r _ hfind => ?_) fun _ _ => h
  · have hr := (hl.definition?_eq_some_iff.mp hdef).1
    exact h s ((hl.mem_rows_dropRow hr s).mp hs).1
  · obtain ⟨id, -, hrow⟩ := Option.bind_eq_some_iff.mp hfind
    exact h.eliminated hl (hl.row?_eq_some_iff.mp hrow).1 m

/-- A variable stays unseen where others are discarded. -/
theorem foldl_discard (h : t.Unseen v) (hl : t.Linked none) (vs : List VarId) :
    (vs.foldl Tableau.discard t).Unseen v := by
  induction vs generalizing t with
  | nil => exact h
  | cons w vs ih =>
      refine ih (fun s hs => ?_) (hl.discard w)
      obtain ⟨q, hq, -, rfl⟩ := (hl.mem_rows_discard w s).mp hs
      exact ⟨(h q hq).1, fun hv =>
        (h q hq).2 ((LinExpr.mem_vars_without (hl.row q hq).nodup w v).mp hv).2⟩

/-- A removal gives a variable no row. -/
theorem remove (h : t.Unseen v) (hl : t.Linked none) (id : ConstraintId) :
    (t.remove id).2.Unseen v := by
  refine remove_cases (p := fun result => result.2.Unseen v) (fun _ => h) fun c _ => ?_
  have hunlisted := hl.unlisted id c.tag
  have hstart : (t.unlisted id c.tag).Unseen v := fun r hr => h r (t.rows_unlisted id c.tag ▸ hr)
  exact (hstart.removeEquation hunlisted c.tag.marker).foldl_discard
    (hunlisted.removeEquation c.tag.marker).1 c.tag.vars

end Unseen

end Tableau

namespace Solver

variable {s s' : Solver K Q} {v w : VarId} {id : ConstraintId}

/-! ### Stale notes -/

/-- A note is **stale** if its variable is gone. -/
def Stale (s : Solver K Q) (v : VarId) : Prop :=
  s.Noted v ∧ ¬s.tableau.vars.isLive v

/-- Notes are **lasting** if all of them are about variables that are apart. -/
def Lasting (s : Solver K Q) : Prop :=
  ∀ v, s.Noted v → s.tableau.Apart v

section Moves

variable [Scalar Q] [Precision K Q] {a : Act K Q}

/-- What is newly noted was noted by the move. -/
theorem Move.noted_or (hmove : s.Move a s') (h : s'.Noted w) :
    s.Noted w ∨ ∃ x hidden, a = .note w x hidden := by
  cases hmove with
  | quiet _ hpins hholds => exact .inl (by rwa [Noted, hpins, hholds] at h)
  | enter _ _ => exact .inl h
  | remove _ _ => exact .inl h
  | note x _ _ _ _ =>
      rcases noted_notePin_iff.mp h with rfl | h
      · exact .inr ⟨x, _, rfl⟩
      · exact .inl h
  | take x _ hhold _ =>
      rcases noted_notePin_iff.mp h with rfl | h
      · exact .inl (.inr (Assoc.mem_keys_of_get? hhold))
      · exact .inl (h.imp_right fun hheld => (Assoc.mem_keys_erase.mp hheld).2)
  | flag _ _ => exact .inl h
  | free _ => exact .inl (h.imp_left fun hpin => (Assoc.mem_keys_erase.mp hpin).2)
  | drop _ => exact .inl (h.imp_right fun hheld => (Assoc.mem_keys_erase.mp hheld).2)
  | keep hpin _ _ =>
      rcases noted_noteHold_iff.mp h with rfl | h
      · exact .inl (.inl (Assoc.mem_keys_of_get? hpin))
      · exact .inl h
  | enterHold hpin _ _ _ _ =>
      rcases noted_noteHold_iff.mp h with rfl | h
      · exact .inl (.inl (Assoc.mem_keys_of_get? hpin))
      · exact .inl h

/-- Lasting notes stay lasting, unless a variable that is not apart is pinned. -/
theorem Lasting.perform (h : s.Lasting) (hs : s.Annotated) {command : Command K Q}
    (hpin : ∀ v x, command = .pin v x → s.tableau.vars.isLive v → s.tableau.Apart v) :
    (s.perform command).2.Lasting := by
  by_cases hgone : ∃ v x, command = .pin v x ∧ ¬s.tableau.vars.isLive v
  · obtain ⟨v, x, rfl, hv⟩ := hgone
    rwa [perform_of_not_isLive hv rfl]
  · refine hs.path_perform command (fun kind stem _ => ?_) (fun _ => ?_) fun hpath => ?_
    · intro v hv
      obtain ⟨hlive, hown⟩ := h v hv
      refine ⟨(s.tableau.isLive_addVariable kind _ v).mpr (.inr hlive), ?_⟩
      exact (s.tableau.constraints_addVariable kind _).symm ▸ hown
    · rintro v (hv | hv) <;> exact absurd hv List.not_mem_nil
    · refine (hpath.keeps (p := fun s => s.Lasting ∧ s.Annotated ∧
        ∀ v x, command = .pin v x → s.tableau.Apart v) (fun s₁ a s₂ hp ha hmove => ?_)
        ⟨h, hs, fun v x heq => hpin v x heq (by_contra fun hv => hgone ⟨v, x, heq, hv⟩)⟩).1
      obtain ⟨hlasting, hannotated, htarget⟩ := hp
      refine ⟨fun v hv => ?_, hannotated.move hmove, fun v x heq =>
        (htarget v x heq).move hannotated hmove⟩
      rcases hmove.noted_or hv with hv | ⟨x, hidden, rfl⟩
      · exact (hlasting v hv).move hannotated hmove
      · obtain ⟨⟨x', heq⟩, -⟩ := ha
        exact (htarget v x' heq).move hannotated hmove

end Moves

end Solver

/-- A command is **tactful** if it pins no variable that was made for a constraint. -/
def Session.Tactful (s : Session K Q) : Command K Q → Prop
  | .pin v _ => ∀ e ∈ s.solver.tableau.constraints, v ∉ e.2.tag.vars
  | _ => True

instance (s : Session K Q) (c : Command K Q) : Decidable (s.Tactful c) :=
  match c with
  | .pin v _ =>
    inferInstanceAs (Decidable (∀ e ∈ s.solver.tableau.constraints, v ∉ e.2.tag.vars))
  | .declare _ _ | .add _ _ | .arrange _ _ | .remove _ | .unpin _ | .optimize | .reset
  | .resetCounters => inferInstanceAs (Decidable True)

namespace Session

variable [Scalar Q] [Precision K Q] {s : Session K Q}

/-- Tactful commands leave lasting notes. -/
theorem Run.lasting (h : s.Run Tactful) : s.solver.Lasting := by
  induction h with
  | start settings => rintro v (hv | hv) <;> exact absurd hv List.not_mem_nil
  | step hrun hc ih =>
      have hs := hrun.reachable.annotated
      refine ih.perform hs fun v x heq hlive => ⟨hlive, fun id c hget => ?_⟩
      subst heq
      exact hc (id, c) ((Assoc.get?_eq_some_iff hs.nodup).mp hget)

/-- As long as no variable of a constraint is pinned, **no note is stale**. -/
theorem Run.not_stale (h : s.Run Tactful) (v : VarId) : ¬s.solver.Stale v :=
  fun hstale => hstale.2 (h.lasting v hstale.1).1

end Session

namespace Solver

variable {s s' : Solver K Q} {v : VarId} {id : ConstraintId} {x : Q}

/-! ### What pinning takes out -/

section Pinning

variable [Scalar Q] [Precision K Q]

/-- An unseen variable is pinned without a hidden constraint. -/
theorem attachPin_of_unseen (hl : s.tableau.Linked none) (hv : s.tableau.Unseen v) (x : Q) :
    s.attachPin v x = (.ok (), s.notePin v x none) := by
  have hdef : s.tableau.definition? v = none :=
    hl.definition?_eq_none_iff.mpr fun ⟨r, hr, hb⟩ => (hv r hr).1 hb
  have hrefs : s.tableau.refs v = [] := List.eq_nil_iff_forall_not_mem.mpr fun id hid => by
    obtain ⟨r, hr, -, hmem⟩ := hl.mem_refs.mp hid
    exact (hv r hr).2 hmem
  have hnot : s.isReferenced v = false := by
    rw [isReferenced, hdef, hrefs]
    simp
  rw [attachPin, hnot]
  rfl

omit [Scalar Q] [Precision K Q] in
/-- Releasing a pin takes out the constraint that was noted with it. -/
theorem hasConstraint_releasePin (s : Solver K Q) (v : VarId) (id : ConstraintId) :
    (s.releasePin v).2.hasConstraint id ↔
      s.hasConstraint id ∧ s.pins.get? v ≠ some (some id) := by
  rw [hasConstraint_iff, hasConstraint_iff, (s.constraints_releasePin v).2]
  split
  · rename_i hid
    exact iff_of_false (by simp) fun hboth => hboth.2 (Option.join_eq_some_iff.mp hid)
  · rename_i hid
    exact (and_iff_left fun hpin => hid (Option.join_eq_some_iff.mpr hpin)).symm

/-- Pinning an unseen variable anew takes out the constraint that was noted with the old pin, and
leaves every other. -/
theorem Annotated.hasConstraint_repin (h : s.Annotated) (hidle : s.isIdle v)
    (hunseen : s.tableau.Unseen v) (hid : s.hasConstraint id) (previous x : Q) :
    (s.repin v previous x).2.hasConstraint id ↔ s.pins.get? v ≠ some (some id) := by
  have hpath := h.path_releasePin (k := .unpin v) (u := s) (v := v) fun _ => hidle
  have hlinked := (hpath.annotated h).wellFormed.linked
  have hreleased := (s.hasConstraint_releasePin v id).trans (and_iff_right hid)
  have hstill : (s.releasePin v).2.tableau.Unseen v := by
    have hflag : (s.tableau.modifyVar v Variable.unpin).Unseen v := hunseen
    rw [releasePin]
    dsimp only
    split
    · exact hflag
    · exact hflag.remove (h.unflag v).wellFormed.linked _
  rw [repin]
  split
  · rename_i heq
    rwa [heq] at hreleased
  · rename_i s₁ heq
    rw [heq] at hlinked hreleased hstill
    simp only [attachPin_of_unseen hlinked hstill]
    exact hreleased

/-- **Pinning** an unseen variable that no constraint took in takes out the constraint that was
noted with its pin, and no other. If its value is fixed it is held, and so it is not pinned. -/
theorem Annotated.hasConstraint_pin (h : s.Annotated) (hv : s.tableau.vars.isLive v)
    (hidle : s.isIdle v) (hunseen : s.tableau.Unseen v) (hid : s.hasConstraint id) :
    (s.pin v x).2.hasConstraint id ↔ s.pins.get? v ≠ some (some id) := by
  have hunpinned : v ∉ s.pins.keys → s.pins.get? v ≠ some (some id) := fun hpin heq =>
    hpin (Assoc.mem_keys_of_get? heq)
  refine pin_cases (p := fun result => result.2.hasConstraint id ↔ s.pins.get? v ≠ some (some id))
    ?_ ?_ ?_ ?_ ?_ ?_
  · exact fun hnone => absurd hv (VariablePool.not_isLive_of_get? hnone)
  · intro y fixed text f hy hfixed _
    have hheld : v ∈ s.holds.keys := by_contra fun hheld => by
      rw [fixedValue?_eq_none hy hheld hidle] at hfixed
      exact absurd hfixed (by simp)
    refine iff_of_true ?_ (hunpinned fun hpin => h.disjoint v hpin hheld)
    rwa [hasConstraint, Tableau.constraints_count]
  · intro y hy _ hfolds _
    rw [isIdle_iff.mp hidle y hy] at hfolds
    exact absurd hfolds (Nat.lt_irrefl 0)
  · intro y hold _ hhold _
    exact iff_of_true hid (hunpinned fun hpin => h.disjoint v hpin (Assoc.mem_keys_of_get? hhold))
  · exact fun y _ _ _ _ => h.hasConstraint_repin hidle hunseen hid y.computed x
  · intro y _ hnoted _
    rw [attachPin_of_unseen h.wellFormed.linked hunseen]
    exact iff_of_true hid (hunpinned fun hpin => hnoted (.inl hpin))

end Pinning

/-! ### New variables -/

/-- A new variable was not live, no constraint took it in, and no row speaks of it. -/
theorem Annotated.idle_declare [Scalar Q] (h : s.Annotated) (kind : Kind) (stem : String) :
    ¬s.tableau.vars.isLive (s.declare kind stem).1 ∧
      (s.declare kind stem).2.tableau.vars.isLive (s.declare kind stem).1 ∧
      (s.declare kind stem).2.isIdle (s.declare kind stem).1 ∧
      (s.declare kind stem).2.tableau.Unseen (s.declare kind stem).1 := by
  obtain ⟨hnew, label, hget⟩ := s.get?_declare kind stem
  have hx := (hget _).trans (if_pos rfl)
  refine ⟨VariablePool.not_isLive_of_get? hnew, VariablePool.isLive_iff.mpr ⟨_, hx⟩,
    isIdle_iff.mpr fun y hy => ?_, (h.wellFormed.linked.absent_addVariable kind _).unseen⟩
  obtain rfl := Option.some.inj (hx.symm.trans hy)
  rfl

/-- **New variables.** In every reachable solver a new variable is as it was made: without a flag,
folded in nowhere, and in no row and no objective. It counts as pinned or held exactly if a stale
note has its handle, and pinning it takes out the constraint that is noted there, and no other.
That does not happen as long as nobody pins a variable that was made for a constraint. -/
theorem Reachable.declare_outcome [Scalar Q] [Precision K Q] (h : s.Reachable) (kind : Kind)
    (stem : String) (x : Q) :
    (∃ label, (s.declare kind stem).2.tableau.vars.get? (s.declare kind stem).1 =
        some (Variable.fresh (s.declare kind stem).1 kind label)) ∧
    (s.declare kind stem).2.tableau.Absent (s.declare kind stem).1 ∧
    ((s.declare kind stem).2.Noted (s.declare kind stem).1 ↔ s.Stale (s.declare kind stem).1) ∧
    (∀ id, s.hasConstraint id →
      (((s.declare kind stem).2.pin (s.declare kind stem).1 x).2.hasConstraint id ↔
        s.pins.get? (s.declare kind stem).1 ≠ some (some id))) ∧
    ∀ r : Session K Q, r.Run Session.Tactful → ∀ v r', r.solver.declare kind stem = (v, r') →
      r'.isPinned v = false ∧ r'.isHeld v = false ∧
        ∀ id, r'.hasConstraint id → (r'.pin v x).2.hasConstraint id := by
  have hs := h.annotated
  obtain ⟨hgone, hlive, hidle, hunseen⟩ := hs.idle_declare kind stem
  obtain ⟨-, label, hget⟩ := s.get?_declare kind stem
  refine ⟨⟨label, (hget _).trans (if_pos rfl)⟩,
    hs.wellFormed.linked.absent_addVariable kind _, (and_iff_left hgone).symm,
    fun id hid => ?_, fun r hr v r' hdeclare => ?_⟩
  · have hthere : (s.declare kind stem).2.hasConstraint id :=
      (congrArg (Assoc.contains · id) (s.tableau.constraints_addVariable kind _)).trans hid
    exact (hs.declare kind stem).hasConstraint_pin hlive hidle hunseen hthere
  · have hr' := hr.reachable.annotated
    have hdeclared := hr'.declare kind stem
    obtain ⟨hgone, hlive, hidle, hunseen⟩ := hr'.idle_declare kind stem
    have hnoted : ¬(r.solver.declare kind stem).2.Noted (r.solver.declare kind stem).1 :=
      fun hnoted => hr.not_stale _ ⟨hnoted, hgone⟩
    rw [hdeclare] at hdeclared hlive hidle hunseen hnoted
    obtain ⟨hpinned, hheld⟩ := not_noted_iff.mp hnoted
    refine ⟨hpinned, hheld, fun id hid => ?_⟩
    exact (hdeclared.hasConstraint_pin hlive hidle hunseen hid).mpr fun hpin =>
      hnoted (.inl (Assoc.mem_keys_of_get? hpin))

/-- A solver in which the slack variable of a constraint was pinned, and the constraint removed. -/
def haunted : Solver Float Float32 :=
  (empty {}).run
    [.declare .external "", .add (Layout.position ⟨0⟩ (0 : Float32)) .ge, .pin ⟨1⟩ 5,
      .remove ⟨0⟩]

/-- A new variable that gets the handle of that slack variable counts as pinned, and pinning it
takes out the constraint that held the slack variable. -/
theorem declare_outcome_of_haunted :
    haunted.Reachable ∧ (haunted.declare .external "").1 = ⟨1⟩ ∧ haunted.Stale ⟨1⟩ ∧
      (haunted.declare .external "").2.isPinned ⟨1⟩ ∧ haunted.hasConstraint ⟨1⟩ ∧
      ((haunted.declare .external "").2.pin ⟨1⟩ 7).2.hasConstraint ⟨1⟩ = false := by
  have hreachable : haunted.Reachable := ⟨{}, _, rfl⟩
  have hfirst : (haunted.declare .external "").1 = ⟨1⟩ := by decide +kernel
  have hpinned : (haunted.declare .external "").2.isPinned ⟨1⟩ := by decide +kernel
  have hthere : haunted.hasConstraint ⟨1⟩ := by decide +kernel
  have hpin : haunted.pins.get? ⟨1⟩ = some (some ⟨1⟩) := by decide +kernel
  obtain ⟨-, -, hstale, htaken, -⟩ := hreachable.declare_outcome .external "" 7
  rw [hfirst] at hstale htaken
  refine ⟨hreachable, hfirst, hstale.mp (.inl (Assoc.contains_iff.mp hpinned)), hpinned, hthere, ?_⟩
  exact Bool.not_eq_true _ ▸ fun hleft => (htaken ⟨1⟩ hthere).mp hleft hpin

end Solver

end LexSimplex
