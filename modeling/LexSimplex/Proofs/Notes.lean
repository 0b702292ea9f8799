import LexSimplex.Proofs.Changes
import LexSimplex.Solver.Session

/-!
# Notes and tableau

Pins and holds are noted in two places: with the solver, and with the variables and constraints of
its tableau. What is said here of both is kept by every change that the operations make, in any
arithmetic and whatever handles a caller passes in. That no two variables share a hidden constraint
holds until handles come round.

## Main definitions

* `Tableau.Quiet`: nothing was entered, and no value changed but those of free variables.
* `Solver.Hides`: a hidden constraint is noted with a variable.
* `Solver.Spare`: a constraint may be noted with a variable.
* `Solver.Annotated`: the notes of a solver fit its tableau.

## Main results

* `Solver.Annotated.of_hides`: what a change must keep for the notes to go on fitting.
* `Solver.Annotated.quiet`, `Solver.Annotated.enter`, `Solver.Annotated.withdraw`: the notes go on
  fitting where the tableau changes.
* `Solver.Annotated.notePin`, `Solver.Annotated.take`, `Solver.Annotated.free`,
  `Solver.Annotated.drop`, `Solver.Annotated.noteHold`: and where the notes do.
-/

namespace LexSimplex

variable {K Q : Type}

/-- An entry is under one of the keys. -/
theorem Assoc.mem_keys_of_get? {κ β : Type} [DecidableEq κ] {m : Assoc κ β} {k : κ} {b : β}
    (h : m.get? k = some b) : k ∈ m.keys :=
  contains_iff.mp (Option.isSome_iff_exists.mpr ⟨b, h⟩)

/-! ### Changes of a tableau -/

namespace Tableau

/-- What a flag makes of a variable. -/
theorem get?_modifyVar (t : Tableau K Q) (v w : VarId) (f : Variable Q → Variable Q) :
    (t.modifyVar v f).vars.get? w =
      if w = v then (t.vars.get? w).map f else t.vars.get? w :=
  VariablePool.get?_modify t.vars v f w

/-- Changing a variable leaves the same handles live. -/
theorem isLive_flag (t : Tableau K Q) (v w : VarId) (f : Variable Q → Variable Q) :
    (t.modifyVar v f).vars.isLive w ↔ t.vars.isLive w := by
  rw [VariablePool.isLive_iff, VariablePool.isLive_iff, get?_modifyVar]
  split <;> simp

/-- A variable whose flag was taken back has none. -/
theorem pinned_modifyVar_unpin {t : Tableau K Q} {v : VarId} {y : Variable Q}
    (hy : (t.modifyVar v Variable.unpin).vars.get? v = some y) : y.pinned = false := by
  rw [get?_modifyVar, if_pos rfl] at hy
  obtain ⟨y', -, rfl⟩ := Option.map_eq_some_iff.mp hy
  rfl

/-- So a variable that still has one is another, and was there before. -/
theorem get?_of_pinned_unpin {t : Tableau K Q} {v w : VarId} {x : Variable Q}
    (hx : (t.modifyVar v Variable.unpin).vars.get? w = some x) (hflag : x.pinned = true) :
    w ≠ v ∧ t.vars.get? w = some x := by
  have hw : w ≠ v := by
    rintro rfl
    rw [pinned_modifyVar_unpin hx] at hflag
    exact absurd hflag (by simp)
  rw [get?_modifyVar, if_neg hw] at hx
  exact ⟨hw, hx⟩

section Quiet

variable [Coefficient K] [Scalar Q] {t t' : Tableau K Q} {v : VarId}

/-- A tableau changes **quietly** if its constraints stay, new variables are plain, and of a live
variable nothing changes but its links and, if it is external and not pinned, its value. -/
structure Quiet (t t' : Tableau K Q) : Prop where
  wellFormed : t'.WellFormed
  old : ∀ v x, t.vars.get? v = some x → ∃ x', t'.vars.get? v = some x' ∧ x'.kind = x.kind ∧
    x'.pinned = x.pinned ∧ x'.folds = x.folds ∧
      (x.kind ≠ .external ∨ x.pinned → x'.computed = x.computed)
  new : ∀ v x, t.vars.get? v = none → t'.vars.get? v = some x → x.Plain
  constraints_eq : t'.constraints = t.constraints
  entered_eq : t'.entered = t.entered

/-- A variable after a **quiet** change is new, or was there before it. -/
theorem Quiet.of_get? (h : t.Quiet t') {x' : Variable Q} (hx' : t'.vars.get? v = some x') :
    (t.vars.get? v = none ∧ x'.Plain) ∨
      ∃ x, t.vars.get? v = some x ∧ x'.kind = x.kind ∧ x'.pinned = x.pinned ∧ x'.folds = x.folds ∧
        (x.kind ≠ .external ∨ x.pinned → x'.computed = x.computed) := by
  cases hx : t.vars.get? v with
  | none => exact .inl ⟨rfl, h.new v x' hx hx'⟩
  | some x =>
      obtain ⟨y, hy, hsame⟩ := h.old v x hx
      exact .inr ⟨x, rfl, Option.some.inj (hy.symm.trans hx') ▸ hsame⟩

/-- An insertion that enters no constraint is quiet. -/
theorem Barren.quiet (h : t.Barren t') : t.Quiet t' := by
  refine ⟨h.grown.wellFormed, fun v x hx => ?_, h.grown.new, h.constraints_eq,
    h.entered_eq⟩
  obtain ⟨x', hx', hcore⟩ := h.grown.old v x hx
  exact ⟨x', hx', (congrArg Variable.kind hcore :), (congrArg Variable.pinned hcore :),
    (congrArg Variable.folds hcore :), fun _ => (congrArg Variable.computed hcore :)⟩

/-- The same variables and constraints are there after a quiet change. -/
theorem SameVars.quiet (h : t.SameVars t') (hwell : t'.WellFormed)
    (hcons : t'.constraints = t.constraints) (hnext : t'.entered = t.entered) :
    t.Quiet t' := by
  refine ⟨hwell, fun v x hx => ?_, fun v x hnone hx => ?_, hcons, hnext⟩
  · obtain ⟨x', hx', hcore⟩ := h.get?_eq_some hx
    exact ⟨x', hx', (congrArg Variable.kind hcore :), (congrArg Variable.pinned hcore :),
      (congrArg Variable.folds hcore :), fun _ => (congrArg Variable.computed hcore :)⟩
  · have hcore := h.core_eq v
    rw [hnone, hx] at hcore
    exact absurd hcore (by simp)

/-- It is quiet where nothing changes. -/
theorem WellFormed.quiet_refl (h : t.WellFormed) : t.Quiet t :=
  (SameVars.refl t).quiet h rfl rfl

/-- Counting is quiet. -/
theorem WellFormed.quiet_count (h : t.WellFormed) (f : Counters → Counters) :
    t.Quiet (t.count f) :=
  (SameVars.count f).quiet (h.count f) (constraints_count t f) (entered_count t f)

/-- Minimisation is quiet. -/
theorem WellFormed.quiet_minimise (h : t.WellFormed) (o : Objective) :
    t.Quiet (t.minimise o).2 :=
  (h.linked.sameVars_minimise o).quiet (h.minimise o) (constraints_minimise o t)
    (entered_minimise o t)

/-- Settling changes the values of free variables. -/
theorem WellFormed.quiet_settle [Precision K Q] (h : t.WellFormed) : t.Quiet t.settle := by
  have hget : ∀ v, t.settle.vars.get? v = _ := VariablePool.get?_map t.vars _
  refine ⟨h.settle, fun v x hx => ?_, fun v x hnone hx => ?_, rfl, rfl⟩
  · refine ⟨_, (hget v).trans (congrArg _ hx), ?_⟩
    dsimp only
    split
    · rename_i hfree
      refine ⟨rfl, rfl, rfl, fun hfixed => ?_⟩
      rcases hfixed with hkind | hpinned
      · exact absurd hfree.1 hkind
      · rw [hfree.2] at hpinned
        exact absurd hpinned (by simp)
    · exact ⟨rfl, rfl, rfl, fun _ => rfl⟩
  · rw [hget, hnone] at hx
    exact absurd hx (by simp)

/-- A pinned variable whose flag was taken back for an insertion that then failed is flagged again,
and nothing has happened to it. -/
theorem Barren.quiet_flag {y : Variable Q} (h : (t.modifyVar v Variable.unpin).Barren t')
    (hy : t.vars.get? v = some y) :
    (t.modifyVar v (·.pin y.computed)).Quiet (t'.modifyVar v (·.pin y.computed)) := by
  refine ⟨h.grown.wellFormed.modifyVar v fun _ => rfl, fun w x hx => ?_, fun w x hnone hx => ?_,
    h.constraints_eq, h.entered_eq⟩
  · rw [get?_modifyVar] at hx ⊢
    have hold := h.grown.old w
    rw [get?_modifyVar] at hold
    by_cases hw : w = v
    · subst hw
      rw [if_pos rfl, hy] at hx hold
      obtain ⟨y', hy', hcore⟩ := hold _ rfl
      obtain rfl := Option.some.inj hx
      refine ⟨_, (if_pos rfl).trans (congrArg _ hy'), (congrArg Variable.kind hcore :), rfl,
        (congrArg Variable.folds hcore :), fun _ => rfl⟩
    · rw [if_neg hw] at hx hold ⊢
      obtain ⟨x', hx', hcore⟩ := hold x hx
      exact ⟨x', hx', (congrArg Variable.kind hcore :), (congrArg Variable.pinned hcore :),
        (congrArg Variable.folds hcore :), fun _ => (congrArg Variable.computed hcore :)⟩
  · rw [get?_modifyVar] at hnone hx
    have hw : w ≠ v := by
      rintro rfl
      rw [if_pos rfl, hy] at hnone
      exact absurd hnone (by simp)
    rw [if_neg hw] at hnone hx
    refine h.grown.new w x ?_ hx
    rw [get?_modifyVar, if_neg hw, hnone]

end Quiet

end Tableau

/-! ### What is noted -/

namespace Solver

variable {s s' : Solver K Q} {v w : VarId} {id : ConstraintId} {c : Constraint K}

/-- A constraint is noted with the variable that it **hides**: it holds the variable, which is
pinned or held. -/
def Hides (s : Solver K Q) (v : VarId) (id : ConstraintId) : Prop :=
  s.pins.get? v = some (some id) ∨ ∃ hold, s.holds.get? v = some hold ∧ hold.constraint = id

/-- A constraint is **spare** for a variable if it is there with nothing folded in and, as long as
handles have not come round, is not hidden yet and was not made of that variable. -/
def Spare (s : Solver K Q) (v : VarId) (id : ConstraintId) : Prop :=
  ∃ c, s.tableau.constraints.get? id = some c ∧ c.tag.folded = [] ∧
    (s.tableau.Unwrapped → ¬s.IsHidden id ∧ v ∉ c.tag.vars)

/-- A constraint is hidden if some variable hides it. -/
theorem isHidden_iff : s.IsHidden id ↔ ∃ v, s.Hides v id := by
  rw [IsHidden]
  exact exists_or.symm

/-- A variable that is pinned hides what it hid and its new constraint. -/
theorem Hides.of_notePin {x : Q} {hidden : Option ConstraintId}
    (h : (s.notePin v x hidden).Hides w id) : s.Hides w id ∨ w = v ∧ hidden = some id := by
  rcases h with hpin | hheld
  · obtain hnew | ⟨-, hpin⟩ := Assoc.get?_insert_eq_some_iff.mp hpin
    · exact .inr hnew
    · exact .inl (.inl hpin)
  · exact .inl (.inr hheld)

/-- A variable that is held hides what it hid and the constraint that holds it. -/
theorem Hides.of_noteHold {x : Q} {new : ConstraintId} (h : (s.noteHold v x new).Hides w id) :
    s.Hides w id ∨ w = v ∧ new = id := by
  rcases h with hpin | ⟨hold, hheld, hid⟩
  · exact .inl (.inl (Assoc.get?_erase_eq_some_iff.mp hpin).2)
  · obtain ⟨hw, rfl⟩ | ⟨-, hheld⟩ := Assoc.get?_insert_eq_some_iff.mp hheld
    · exact .inr ⟨hw, hid⟩
    · exact .inl (.inr ⟨hold, hheld, hid⟩)

/-- A variable whose pin is given up hides nothing that it did not hide. -/
theorem Hides.of_erasePin {t : Tableau K Q}
    (h : { s with tableau := t, pins := s.pins.erase v }.Hides w id) : s.Hides w id := by
  exact h.imp_left fun hpin => (Assoc.get?_erase_eq_some_iff.mp hpin).2

/-- A variable whose hold is given up hides nothing that it did not hide. -/
theorem Hides.of_eraseHold (h : { s with holds := s.holds.erase v }.Hides w id) :
    s.Hides w id := by
  rcases h with hpin | ⟨hold, hheld, hid⟩
  · exact .inl hpin
  · exact .inr ⟨hold, (Assoc.get?_erase_eq_some_iff.mp hheld).2, hid⟩

/-- A variable that is pinned is noted, and so is what was noted before. -/
theorem noted_notePin_iff {x : Q} {hidden : Option ConstraintId} :
    (s.notePin v x hidden).Noted w ↔ w = v ∨ s.Noted w := by
  rw [Noted, Noted, ← or_assoc]
  exact or_congr_left (Assoc.mem_keys_insert _ _ _ _)

/-- A variable that is held is noted, and so is what was noted before. -/
theorem noted_noteHold_iff {x : Q} : (s.noteHold v x id).Noted w ↔ w = v ∨ s.Noted w := by
  have hholds : w ∈ (s.noteHold v x id).holds.keys ↔ w = v ∨ w ∈ s.holds.keys :=
    Assoc.mem_keys_insert _ _ _ _
  have hpins : w ∈ (s.noteHold v x id).pins.keys ↔ w ≠ v ∧ w ∈ s.pins.keys :=
    Assoc.mem_keys_erase
  rw [Noted, Noted, hpins, hholds]
  by_cases hw : w = v <;> simp [hw]

/-- What is noted is pinned or held. -/
theorem not_noted_iff : ¬s.Noted v ↔ s.isPinned v = false ∧ s.isHeld v = false := by
  rw [Noted, isPinned, isHeld, ← Assoc.contains_iff, ← Assoc.contains_iff, not_or,
    Bool.not_eq_true, Bool.not_eq_true]

/-- A variable is idle if it is folded in nowhere. -/
theorem isIdle_iff : s.isIdle v ↔ ∀ x, s.tableau.vars.get? v = some x → x.folds = 0 := by
  rw [isIdle]
  cases s.tableau.vars.get? v <;> simp

variable [Coefficient K]

/-- The notes of a solver **fit** its tableau: no variable is pinned and held at once, one that is
flagged as pinned is noted so, and as long as handles have not come round, every hidden constraint
is noted with one variable, was made for it, and has no variable folded in. -/
structure Annotated (s : Solver K Q) : Prop where
  wellFormed : s.tableau.WellFormed
  nodup : s.tableau.constraints.keys.Nodup
  nodup_holds : s.holds.keys.Nodup
  disjoint : ∀ v ∈ s.pins.keys, v ∉ s.holds.keys
  pinned : ∀ v x, s.tableau.vars.get? v = some x → x.pinned → v ∈ s.pins.keys
  id_lt : ∀ v id, s.Hides v id → id.index < s.tableau.entered
  unique : s.tableau.Unwrapped → ∀ v w id, s.Hides v id → s.Hides w id → v = w
  plain : s.tableau.Unwrapped → ∀ v id c, s.Hides v id →
    s.tableau.constraints.get? id = some c → c.tag.folded = [] ∧ v ∉ c.tag.vars

/-- As long as handles have not come round, the next one is not that of a hidden constraint. -/
theorem Annotated.not_isHidden_next (h : s.Annotated) (hroom : s.tableau.Unwrapped) :
    ¬s.IsHidden s.tableau.nextConstraint := by
  rw [isHidden_iff]
  rintro ⟨v, hv⟩
  have hlt := h.id_lt v _ hv
  rw [Tableau.nextConstraint_index hroom] at hlt
  exact Nat.lt_irrefl _ hlt

/-- The notes go on fitting if no older constraint was entered, flags and notes agree, and what is
newly hidden is a constraint with nothing folded in that was not hidden before. What is said of
constraints need hold only as long as handles have not come round. -/
theorem Annotated.of_hides (h : s.Annotated) (hwell : s'.tableau.WellFormed)
    (hnodup : s'.tableau.constraints.keys.Nodup) (hholds : s'.holds.keys.Nodup)
    (hdisjoint : ∀ v ∈ s'.pins.keys, v ∉ s'.holds.keys)
    (hpinned : ∀ v x, s'.tableau.vars.get? v = some x → x.pinned → v ∈ s'.pins.keys)
    (hnext : s.tableau.entered ≤ s'.tableau.entered)
    (hold : s'.tableau.Unwrapped → ∀ id c, id.index < s.tableau.entered →
      s'.tableau.constraints.get? id = some c → s.tableau.constraints.get? id = some c)
    (hhides : ∀ w id, s'.Hides w id → s.Hides w id ∨
      w = v ∧ id.index < s'.tableau.entered ∧ (s'.tableau.Unwrapped → ¬s.IsHidden id ∧
        ∀ c, s'.tableau.constraints.get? id = some c → c.tag.folded = [] ∧ v ∉ c.tag.vars)) :
    s'.Annotated := by
  refine ⟨hwell, hnodup, hholds, hdisjoint, hpinned, fun w id hw => ?_,
    fun hroom w z id hw hz => ?_, fun hroom w id c hw hc => ?_⟩
  · rcases hhides w id hw with hw | ⟨-, hlt, -⟩
    · exact Nat.lt_of_lt_of_le (h.id_lt w id hw) hnext
    · exact hlt
  · rcases hhides w id hw with hw | ⟨rfl, -, hnew⟩ <;>
      rcases hhides z id hz with hz | ⟨rfl, -, hnew'⟩
    · exact h.unique (hroom.of_le hnext) w z id hw hz
    · exact absurd (isHidden_iff.mpr ⟨w, hw⟩) (hnew' hroom).1
    · exact absurd (isHidden_iff.mpr ⟨z, hz⟩) (hnew hroom).1
    · rfl
  · rcases hhides w id hw with hw | ⟨rfl, -, hnew⟩
    · exact h.plain (hroom.of_le hnext) w id c hw (hold hroom id c (h.id_lt w id hw) hc)
    · exact (hnew hroom).2 c hc

/-- Nothing is noted where there is nothing. -/
theorem annotated_of_nothing (hwell : s.tableau.WellFormed) (hcons : s.tableau.constraints = [])
    (hvars : ∀ v, s.tableau.vars.get? v = none) (hpins : s.pins = []) (hholds : s.holds = []) :
    s.Annotated := by
  have hhides : ∀ v id, ¬s.Hides v id := by
    rintro v id (hpin | ⟨hold, hhold, -⟩)
    · rw [hpins] at hpin
      exact absurd hpin (by simp)
    · rw [hholds] at hhold
      exact absurd hhold (by simp)
  refine ⟨hwell, hcons ▸ List.nodup_nil, hholds ▸ List.nodup_nil, ?_, ?_, ?_, ?_, ?_⟩
  · rw [hpins]
    exact fun v hv => absurd hv List.not_mem_nil
  · intro v x hx
    rw [hvars] at hx
    exact absurd hx (by simp)
  · exact fun v id hv => absurd hv (hhides v id)
  · exact fun _ v w id hv => absurd hv (hhides v id)
  · exact fun _ v id c hv => absurd hv (hhides v id)

/-- The notes fit after a reset: there are none. -/
theorem annotated_reset (s : Solver K Q) : s.reset.Annotated :=
  annotated_of_nothing
    (Tableau.WellFormed.of_nothing rfl rfl rfl (VariablePool.get?_reset s.tableau.vars)
      (Pool.get?_reset s.tableau.rowSlots)) rfl (VariablePool.get?_reset s.tableau.vars) rfl rfl

namespace Annotated

/-! ### Changes of the tableau alone -/

/-- Notes that fit a tableau fit one with no more flags and no older constraint, with the same
hidden constraints or fewer. -/
theorem of_notes (h : s.Annotated) (hwell : s'.tableau.WellFormed)
    (hnodup : s'.tableau.constraints.keys.Nodup)
    (hpinned : ∀ v x, s'.tableau.vars.get? v = some x → x.pinned →
      ∃ y, s.tableau.vars.get? v = some y ∧ y.pinned)
    (hnext : s.tableau.entered ≤ s'.tableau.entered)
    (hold : s'.tableau.Unwrapped → ∀ id c, id.index < s.tableau.entered →
      s'.tableau.constraints.get? id = some c → s.tableau.constraints.get? id = some c)
    (hpins : s'.pins = s.pins) (hholds : s'.holds = s.holds) : s'.Annotated := by
  refine h.of_hides (v := ⟨0⟩) hwell hnodup (hholds ▸ h.nodup_holds) ?_ ?_ hnext hold ?_
  · rw [hpins, hholds]
    exact h.disjoint
  · intro v x hx hflag
    obtain ⟨y, hy, hyflag⟩ := hpinned v x hx hflag
    exact hpins ▸ h.pinned v y hy hyflag
  · intro w id hw
    rw [Hides, hpins, hholds] at hw
    exact .inl hw

/-- The notes still fit where a constraint is withdrawn. -/
theorem withdraw (h : s.Annotated) (hc : s.tableau.constraints.get? id = some c)
    (status : Status) :
    { s with tableau := s.tableau.withdraw id c.tag, status := status }.Annotated := by
  have ht := h.wellFormed.withdrawn hc
  refine h.of_notes ht.wellFormed ?_ ?_ (Nat.le_of_eq ht.entered_eq.symm) ?_ rfl rfl
  · rw [ht.constraints_eq]
    exact Assoc.nodup_keys_erase h.nodup id
  · intro v x hx hflag
    obtain ⟨y, hy, hcore⟩ := ht.of_get? hx
    exact ⟨y, hy, (congrArg Variable.pinned hcore :) ▸ hflag⟩
  · intro _ id' c' _ hc'
    rw [ht.constraints_eq] at hc'
    exact (Assoc.get?_erase_eq_some_iff.mp hc').2

/-- A flag taken back leaves notes that fit. -/
theorem unflag (h : s.Annotated) (v : VarId) :
    { s with tableau := s.tableau.modifyVar v Variable.unpin }.Annotated := by
  refine h.of_notes (h.wellFormed.modifyVar v fun _ => rfl) h.nodup ?_ (Nat.le_refl _)
    (fun _ _ _ _ hc => hc) rfl rfl
  exact fun w x hx hflag => ⟨x, (Tableau.get?_of_pinned_unpin hx hflag).2, hflag⟩

section Insertions

variable [Scalar Q]

/-- The notes still fit after a quiet change. -/
theorem quiet (h : s.Annotated) (ht : s.tableau.Quiet s'.tableau) (hpins : s'.pins = s.pins)
    (hholds : s'.holds = s.holds) : s'.Annotated := by
  refine h.of_notes ht.wellFormed (ht.constraints_eq ▸ h.nodup) ?_
    (Nat.le_of_eq ht.entered_eq.symm) (fun _ id c _ hc => ht.constraints_eq ▸ hc) hpins hholds
  intro v x hx hflag
  rcases ht.of_get? hx with ⟨-, hplain⟩ | ⟨y, hy, -, hpinned, -⟩
  · rw [hplain.pinned_eq] at hflag
    exact absurd hflag (by simp)
  · exact ⟨y, hy, hpinned ▸ hflag⟩

variable [Precision K Q]

/-- The notes still fit where a constraint is entered. -/
theorem enter (h : s.Annotated) {t' : Tableau K Q} (hc : s.tableau.Entered c t')
    (status : Status) : { s with tableau := t', status := status }.Annotated := by
  refine h.of_notes hc.grown.wellFormed ?_ ?_ ?_ ?_ rfl rfl
  · rw [hc.constraints_eq]
    exact Assoc.nodup_keys_insert h.nodup _ _
  · intro v x hx hflag
    rcases hc.grown.of_get? hx with ⟨-, hplain⟩ | ⟨y, hy, hcore⟩
    · rw [hplain.pinned_eq] at hflag
      exact absurd hflag (by simp)
    · exact ⟨y, hy, (congrArg Variable.pinned hcore :) ▸ hflag⟩
  · exact hc.entered_eq ▸ Nat.le_succ _
  · intro hroom id c' hid hc'
    rw [hc.constraints_eq, Assoc.get?_insert, if_neg] at hc'
    · exact hc'
    · rintro rfl
      have hbefore := hroom.of_le (hc.entered_eq ▸ Nat.le_succ _ : s.tableau.entered ≤ t'.entered)
      rw [Tableau.nextConstraint_index hbefore] at hid
      exact Nat.lt_irrefl _ hid

end Insertions

/-! ### Changes of the notes -/

/-- What is known of a spare constraint. -/
theorem of_spare (h : s.Annotated) (hspare : s.Spare v id) :
    id.index < s.tableau.entered ∧ (s.tableau.Unwrapped → ¬s.IsHidden id ∧
      ∀ c, s.tableau.constraints.get? id = some c → c.tag.folded = [] ∧ v ∉ c.tag.vars) := by
  obtain ⟨c, hc, hfolded, hnew⟩ := hspare
  refine ⟨h.wellFormed.numbered id c hc, fun hroom => ⟨(hnew hroom).1, fun c' hc' => ?_⟩⟩
  obtain rfl : c = c' := Option.some.inj (hc.symm.trans hc')
  exact ⟨hfolded, (hnew hroom).2⟩

/-- After a variable was pinned it is noted so. -/
theorem mem_pins_notePin (h : s.Annotated) {x : Q} {hidden : Option ConstraintId} {y : Variable Q}
    (hy : (s.notePin v x hidden).tableau.vars.get? w = some y) (hflag : y.pinned) :
    w ∈ (s.notePin v x hidden).pins.keys := by
  rw [notePin, Assoc.mem_keys_insert]
  have hget := (Tableau.get?_modifyVar s.tableau v w (·.pin x)).symm.trans hy
  split at hget
  · rename_i hw
    exact .inl hw
  · exact .inr (h.pinned w y hget hflag)

/-- The notes still fit where a variable that was not noted is pinned, with a constraint that is
spare for it if there is one. -/
theorem notePin (h : s.Annotated) (x : Q) {hidden : Option ConstraintId} (hnoted : ¬s.Noted v)
    (hhidden : ∀ id ∈ hidden, s.Spare v id) : (s.notePin v x hidden).Annotated := by
  refine h.of_hides (v := v) (h.wellFormed.modifyVar v fun _ => rfl) h.nodup h.nodup_holds ?_
    (fun w y hy hflag => h.mem_pins_notePin hy hflag) (Nat.le_refl _) (fun _ _ _ _ hc => hc) ?_
  · intro w hw
    rcases (Assoc.mem_keys_insert _ _ _ _).mp hw with rfl | hw
    · exact fun hheld => hnoted (.inr hheld)
    · exact h.disjoint w hw
  · intro w id hhides
    refine hhides.of_notePin.imp_right fun ⟨hw, hid⟩ => ?_
    exact ⟨hw, h.of_spare (hhidden id hid)⟩

/-- The notes still fit where a held variable is pinned again, with the constraint of its hold. -/
theorem take (h : s.Annotated) {hold : Hold Q} (hhold : s.holds.get? v = some hold) (x : Q) :
    ({ s with holds := s.holds.erase v }.notePin v x (some hold.constraint)).Annotated := by
  refine h.of_hides (v := v) (h.wellFormed.modifyVar v fun _ => rfl) h.nodup
    (Assoc.nodup_keys_erase h.nodup_holds v) ?_ ?_ (Nat.le_refl _) (fun _ _ _ _ hc => hc) ?_
  · intro w hw hheld
    obtain ⟨hne, hheld⟩ := Assoc.mem_keys_erase.mp hheld
    rcases (Assoc.mem_keys_insert _ _ _ _).mp hw with rfl | hw
    · exact hne rfl
    · exact h.disjoint w hw hheld
  · intro w y hy hflag
    have hy : (s.notePin v x (some hold.constraint)).tableau.vars.get? w = some y := hy
    exact h.mem_pins_notePin hy hflag
  · intro w id hhides
    rcases hhides.of_notePin with hhides | ⟨rfl, hid⟩
    · exact .inl hhides.of_eraseHold
    · exact .inl (.inr ⟨hold, hhold, Option.some.inj hid⟩)

/-- The notes still fit where a pin is given up. -/
theorem free (h : s.Annotated) (v : VarId) :
    { s with
      tableau := s.tableau.modifyVar v Variable.unpin, pins := s.pins.erase v }.Annotated := by
  refine h.of_hides (v := v) (h.wellFormed.modifyVar v fun _ => rfl) h.nodup h.nodup_holds
    (fun w hw => h.disjoint w (Assoc.mem_keys_erase.mp hw).2) ?_ (Nat.le_refl _)
    (fun _ _ _ _ hc => hc) ?_
  · intro w x hx hflag
    obtain ⟨hw, hx⟩ := Tableau.get?_of_pinned_unpin hx hflag
    exact Assoc.mem_keys_erase.mpr ⟨hw, h.pinned w x hx hflag⟩
  · exact fun w id hhides => .inl hhides.of_erasePin

/-- The notes still fit where a hold is given up. -/
theorem drop (h : s.Annotated) (v : VarId) : { s with holds := s.holds.erase v }.Annotated := by
  refine h.of_hides (v := v) h.wellFormed h.nodup (Assoc.nodup_keys_erase h.nodup_holds v) ?_
    h.pinned (Nat.le_refl _) (fun _ _ _ _ hc => hc) ?_
  · exact fun w hw hheld => h.disjoint w hw (Assoc.mem_keys_erase.mp hheld).2
  · exact fun w id hhides => .inl hhides.of_eraseHold

/-- A pinned variable that is no longer flagged may be noted as held. -/
theorem noteHold (h : s.Annotated) (x : Q)
    (hflag : ∀ y, s.tableau.vars.get? v = some y → y.pinned = false)
    (hhides : s.Hides v id ∨ s.Spare v id) : (s.noteHold v x id).Annotated := by
  refine h.of_hides (v := v) h.wellFormed h.nodup (Assoc.nodup_keys_insert h.nodup_holds v _) ?_ ?_
    (Nat.le_refl _) (fun _ _ _ _ hc => hc) ?_
  · intro w hw hheld
    obtain ⟨hne, hw⟩ := Assoc.mem_keys_erase.mp hw
    rcases (Assoc.mem_keys_insert _ _ _ _).mp hheld with rfl | hheld
    · exact hne rfl
    · exact h.disjoint w hw hheld
  · intro w y hy hpinned
    refine Assoc.mem_keys_erase.mpr ⟨?_, h.pinned w y hy hpinned⟩
    rintro rfl
    rw [hflag y hy] at hpinned
    exact absurd hpinned (by simp)
  · intro w id' hw
    rcases hw.of_noteHold with hw | ⟨rfl, rfl⟩
    · exact .inl hw
    · exact hhides.imp_right fun hspare => ⟨rfl, h.of_spare hspare⟩

/-- What is hidden with a held variable is not hidden once the hold is given up. -/
theorem not_isHidden_drop (h : s.Annotated) (hroom : s.tableau.Unwrapped) {hold : Hold Q}
    (hhold : s.holds.get? v = some hold) :
    ¬{ s with holds := s.holds.erase v }.IsHidden hold.constraint := by
  rw [isHidden_iff]
  rintro ⟨w, hpin | ⟨hold', hheld, hid⟩⟩
  · have hw := h.unique hroom w v _ (.inl hpin) (.inr ⟨hold, hhold, rfl⟩)
    exact h.disjoint w (Assoc.mem_keys_of_get? hpin) (hw ▸ Assoc.mem_keys_of_get? hhold)
  · obtain ⟨hne, hheld⟩ := Assoc.get?_erase_eq_some_iff.mp hheld
    exact hne (h.unique hroom w v _ (.inr ⟨hold', hheld, hid⟩) (.inr ⟨hold, hhold, rfl⟩))

/-- What is hidden with a pinned variable is not hidden once the pin is given up. -/
theorem not_isHidden_free (h : s.Annotated) (hroom : s.tableau.Unwrapped)
    (hpin : s.pins.get? v = some (some id)) (t : Tableau K Q) :
    ¬{ s with tableau := t, pins := s.pins.erase v }.IsHidden id := by
  rw [isHidden_iff]
  rintro ⟨w, hw | ⟨hold, hheld, hid⟩⟩
  · obtain ⟨hne, hw⟩ := Assoc.get?_erase_eq_some_iff.mp hw
    exact hne (h.unique hroom w v _ (.inl hw) (.inl hpin))
  · have hw := h.unique hroom w v _ (.inr ⟨hold, hheld, hid⟩) (.inl hpin)
    exact h.disjoint v (Assoc.mem_keys_of_get? hpin) (hw ▸ Assoc.mem_keys_of_get? hheld)

/-- A variable that is not noted has no flag. -/
theorem pinned_eq_false (h : s.Annotated) (hnoted : ¬s.Noted v) {y : Variable Q}
    (hy : s.tableau.vars.get? v = some y) : y.pinned = false := by
  by_contra hflag
  exact hnoted (.inl (h.pinned v y hy (by simpa using hflag)))

end Annotated

section Declare

variable [Scalar Q]

/-- A new variable is not noted. -/
theorem Annotated.declare (h : s.Annotated) (kind : Kind) (stem : String) :
    (s.declare kind stem).2.Annotated := by
  have heq : (s.declare kind stem).2 =
      { s with
        tableau := (s.tableau.addVariable kind (if stem = "" then none else some stem)).2 } :=
    rfl
  rw [heq]
  generalize (if stem = "" then none else some stem) = name
  obtain ⟨label, hget⟩ := s.tableau.get?_addVariable kind name
  have hcons := s.tableau.constraints_addVariable kind name
  refine h.of_notes (h.wellFormed.addVariable kind name) (hcons ▸ h.nodup) ?_
    (Nat.le_of_eq (s.tableau.entered_addVariable kind name).symm)
    (fun _ _ _ _ hc => hcons ▸ hc) rfl rfl
  intro v x hx hflag
  rw [hget] at hx
  split at hx
  · obtain rfl := Option.some.inj hx
    exact absurd hflag (by simp [Variable.fresh])
  · exact ⟨x, hx, hflag⟩

end Declare

/-! ### Taking back a pin -/

/-- Idle variables stay idle where a constraint is taken out. -/
theorem isIdle_remove {w : VarId} (hwell : s.tableau.WellFormed) (id : ConstraintId)
    (hidle : s.isIdle w) : { s with tableau := (s.tableau.remove id).2 }.isIdle w := by
  refine Tableau.remove_cases (t := s.tableau)
    (p := fun result => ({ s with tableau := result.2 } : Solver K Q).isIdle w)
    (fun _ => hidle) fun c hc => ?_
  have ht := hwell.withdrawn hc
  rw [isIdle_iff] at hidle ⊢
  intro x hx
  obtain ⟨y, hy, hcore⟩ := ht.of_get? hx
  have hfolds : x.folds = y.folds - c.tag.folded.count w := (congrArg Variable.folds hcore :)
  rw [hfolds, hidle y hy, Nat.zero_sub]

/-- Releasing a pin erases it from the notes. The variable stays idle if it was, and it stays live
as long as handles have not come round. -/
theorem Annotated.releasePin_notes (h : s.Annotated) (hv : s.tableau.vars.isLive v) :
    (s.releasePin v).2.pins = s.pins.erase v ∧ (s.releasePin v).2.holds = s.holds ∧
      ((s.releasePin v).2.tableau.Unwrapped → (s.releasePin v).2.tableau.vars.isLive v) ∧
      (s.isIdle v → (s.releasePin v).2.isIdle v) := by
  have hlive : (s.tableau.modifyVar v Variable.unpin).vars.isLive v :=
    (s.tableau.isLive_flag v v _).mpr hv
  have hidle : s.isIdle v →
      { s with tableau := s.tableau.modifyVar v Variable.unpin }.isIdle v := by
    rw [isIdle_iff, isIdle_iff]
    intro hidle x hx
    rw [Tableau.get?_modifyVar, if_pos rfl] at hx
    obtain ⟨y, hy, rfl⟩ := Option.map_eq_some_iff.mp hx
    exact hidle y hy
  rw [releasePin]
  dsimp only
  split
  · exact ⟨rfl, rfl, fun _ => hlive, hidle⟩
  · rename_i id hid
    have hpin : s.pins.get? v = some (some id) := Option.join_eq_some_iff.mp hid
    refine ⟨rfl, rfl, fun hroom => ?_,
      fun hw => isIdle_remove (h.unflag v).wellFormed id (hidle hw)⟩
    refine Tableau.remove_cases (p := fun result => result.2.vars.isLive v) (fun _ => hlive)
      fun c hc => ?_
    have hsame := Tableau.entered_remove (s.tableau.modifyVar v Variable.unpin) id
    have hbefore : s.tableau.Unwrapped := hroom.of_le (Nat.le_of_eq hsame.symm)
    obtain ⟨x, hx⟩ := VariablePool.isLive_iff.mp hlive
    obtain ⟨x', hx', -⟩ := ((h.unflag v).wellFormed.withdrawn hc).old v x
      (h.plain hbefore v id c (.inl hpin) hc).2 hx
    exact VariablePool.isLive_iff.mpr ⟨x', hx'⟩

/-- So a variable that is not held is not noted once its pin is released. -/
theorem Annotated.not_noted_releasePin (h : s.Annotated) (hv : s.tableau.vars.isLive v)
    (hheld : v ∉ s.holds.keys) : ¬(s.releasePin v).2.Noted v := by
  obtain ⟨hpins, hholds, -⟩ := h.releasePin_notes hv
  rw [Noted, hpins, hholds]
  rintro (hpin | hhold)
  · exact (Assoc.mem_keys_erase.mp hpin).1 rfl
  · exact hheld hhold

end Solver

end LexSimplex
