import LexSimplex.Proofs.FoldCounts

/-!
# Pins, holds and folds agree

Whether a variable is pinned or held is kept in two tables of the solver, in a flag and a count of
the variable, and in the constraints that took its value in. For a caller who pins and unpins own
variables only, and removes only constraints whose handles were given out, all of these agree
whenever the caller has the word, in any arithmetic.

Handles start over at a reset, so those that were given out before one do not count: an old handle
can be that of a hidden constraint. So can one that was given out since, once handles have come
round.

## Main definitions

* `Solver.HoldsNeeded`: every held variable is folded in somewhere.
* `Solver.Reconciled`: the tables, the flags, the counts and the constraints agree.
* `Ledger`, `Ledger.Run`: a session with the handles that were given out, and a caller who removes
  no other.
* `Ledger.perform`, `Ledger.hoard`: ledgers that forget the handles at a reset, and that do not.

## Main results

* `Session.Run.reconciled`: all agree if no hidden constraint is removed.
* `Ledger.Run.discreet`: a handle that was given out is not that of a hidden constraint.
* `Ledger.Run.books_agree`: all agree if only handles are removed that were given out since the last
  reset, and if these have not come round.
-/

namespace LexSimplex

variable {K Q : Type} [Coefficient K] [Scalar Q] [Precision K Q]

namespace Solver

variable {own : VarId → Prop} {s s' u : Solver K Q} {v : VarId} {id : ConstraintId}
  {c : Constraint K} {a : Act K Q} {command : Command K Q}

/-! ### Holds that are needed -/

omit [Coefficient K] [Scalar Q] [Precision K Q] in

/-- A variable is not idle if it is live and folded in somewhere. -/
theorem not_isIdle_iff : ¬s.isIdle v ↔ ∃ x, s.tableau.vars.get? v = some x ∧ 0 < x.folds := by
  rw [isIdle_iff, not_forall]
  exact exists_congr fun x => by rw [Classical.not_imp, Nat.pos_iff_ne_zero]

/-- What a constraint that is entered leaves of a variable that is not idle. -/
theorem not_isIdle_enter (hv : ¬s.isIdle v) (hc : s.tableau.Entered c s'.tableau) :
    ¬s'.isIdle v := by
  obtain ⟨x, hx, hpos⟩ := not_isIdle_iff.mp hv
  obtain ⟨x', hx', hcore⟩ := hc.grown.old v x hx
  refine not_isIdle_iff.mpr ⟨x', hx', ?_⟩
  rw [show x'.folds = _ from (congrArg Variable.folds hcore :)]
  exact Nat.lt_of_lt_of_le hpos (Nat.le_add_right _ _)

/-- A variable of the caller that is folded in somewhere stays so, where no constraint is taken out
that has something folded in. -/
theorem Booked.not_isIdle_move (h : s.Booked own) (hs : s.Annotated) (hmove : s.Move a s')
    (hremove : ∀ id c, a = .remove id → s.tableau.constraints.get? id = some c → c.tag.folded = [])
    (hown : own v) (hv : ¬s.isIdle v) : ¬s'.isIdle v := by
  cases hmove with
  | quiet ht _ _ =>
      obtain ⟨x, hx, hpos⟩ := not_isIdle_iff.mp hv
      obtain ⟨x', hx', -, -, hfolds, -⟩ := ht.old v x hx
      exact not_isIdle_iff.mpr ⟨x', hx', hfolds.symm ▸ hpos⟩
  | enter _ hc => exact not_isIdle_enter hv hc
  | remove _ hc =>
      obtain ⟨x, hx, hpos⟩ := not_isIdle_iff.mp hv
      obtain ⟨x', hx', hcore⟩ := (hs.wellFormed.withdrawn hc).old v x
        (fun hmem => h.counted.apart _ _ hc v hmem hown) hx
      refine not_isIdle_iff.mpr ⟨x', hx', ?_⟩
      rw [show x'.folds = _ from (congrArg Variable.folds hcore :), hremove _ _ rfl hc]
      exact hpos
  | note x _ _ _ _ => exact mt (isIdle_modifyVar (f := (·.pin x)) rfl (fun _ => rfl) v).mp hv
  | take x _ _ _ => exact mt (isIdle_modifyVar (f := (·.pin x)) rfl (fun _ => rfl) v).mp hv
  | @flag _ y _ _ =>
      exact mt (isIdle_modifyVar (f := (·.pin y.computed)) rfl (fun _ => rfl) v).mp hv
  | free _ => exact mt (isIdle_modifyVar (f := Variable.unpin) rfl (fun _ => rfl) v).mp hv
  | drop _ => exact hv
  | keep _ _ _ => exact mt (isIdle_modifyVar (f := Variable.unpin) rfl (fun _ => rfl) v).mp hv
  | @enterHold w _ _ _ _ _ _ hc _ =>
      have hflag : ¬({ s with tableau := s.tableau.modifyVar w Variable.unpin } :
          Solver K Q).isIdle v :=
        mt (isIdle_modifyVar (f := Variable.unpin) rfl (fun _ => rfl) v).mp hv
      exact not_isIdle_enter hflag hc

/-- A variable that becomes held is folded in somewhere. -/
theorem Move.not_isIdle_of_held (hmove : s.Move a s') (hv : v ∈ s'.holds.keys) :
    v ∈ s.holds.keys ∨ ¬s.isIdle v := by
  have hnew : ∀ {w : VarId} {y : Variable Q} {hold : Hold Q}, s.tableau.vars.get? w = some y →
      0 < y.folds → v ∈ (s.holds.insert w hold).keys → v ∈ s.holds.keys ∨ ¬s.isIdle v := by
    intro w y hold hy hpos hmem
    rcases (Assoc.mem_keys_insert _ _ _ _).mp hmem with rfl | hmem
    · exact .inr (not_isIdle_iff.mpr ⟨y, hy, hpos⟩)
    · exact .inl hmem
  cases hmove with
  | quiet _ _ hholds => exact .inl (hholds ▸ hv)
  | enter _ _ => exact .inl hv
  | remove _ _ => exact .inl hv
  | note _ _ _ _ _ => exact .inl hv
  | take _ _ _ _ => exact .inl (Assoc.mem_keys_erase.mp hv).2
  | flag _ _ => exact .inl hv
  | free _ => exact .inl hv
  | drop _ => exact .inl (Assoc.mem_keys_erase.mp hv).2
  | keep _ hy hfolds => exact hnew hy hfolds hv
  | enterHold _ hy hfolds _ _ => exact hnew hy hfolds hv

/-- The holds of a solver are **needed** if every held variable is folded in somewhere. -/
def HoldsNeeded (s : Solver K Q) : Prop :=
  ∀ v ∈ s.holds.keys, ¬s.isIdle v

omit [Precision K Q] in
/-- A new variable changes nothing for those that are held. -/
theorem HoldsNeeded.declare (h : s.HoldsNeeded) (hbooked : s.Booked own) (kind : Kind)
    (stem : String) : (s.declare kind stem).2.HoldsNeeded := by
  intro v hv
  obtain ⟨hnew, label, hget⟩ := s.get?_declare kind stem
  obtain ⟨x, hx, hpos⟩ := not_isIdle_iff.mp (h v hv)
  have hne : v ≠ (s.declare kind stem).1 := fun hv' =>
    hbooked.counted.not_own_of_get? hnew (hv' ▸ hbooked.noted_own v (.inr hv))
  exact not_isIdle_iff.mpr ⟨x, by rw [hget, if_neg hne, hx], hpos⟩

/-- A command that removes no constraint of the caller's leaves holds that are needed, as long as
handles have not come round. -/
theorem HoldsNeeded.path (h : s.HoldsNeeded) (hbooked : s.Booked own) (hs : s.Annotated)
    (hpath : s.Path (command.Does u) s') (hremoved : command.removed? = none)
    (hdrawn : ∀ request ∈ command.drawn?, request.expr.vars.Nodup)
    (hfixed : ∀ v ∈ command.fixed?, own v) : s'.tableau.Unwrapped → s'.HoldsNeeded := by
  refine (hpath.keeps
    (p := fun s => (s.tableau.Unwrapped → s.HoldsNeeded) ∧ s.Booked own ∧ s.Annotated)
    (fun s₁ a s₂ hp ha hmove => ?_) ⟨fun _ => h, hbooked, hs⟩).1
  obtain ⟨h₁, hbooked₁, hs₁⟩ := hp
  refine ⟨fun hroom v hv => ?_, hbooked₁.path hs₁ (hmove.path ha) hdrawn hfixed, hs₁.move hmove⟩
  have hbefore := hroom.of_le (hmove.entered_le hs₁)
  have hbooked₂ := hbooked₁.path hs₁ (hmove.path ha) hdrawn hfixed
  have hown : own v := hbooked₂.noted_own v (.inr hv)
  refine hbooked₁.not_isIdle_move hs₁ hmove (fun id c hid hc => ?_) hown ?_
  · rw [hid] at ha
    rcases ha with ⟨hmem, -⟩ | hplain
    · rw [hremoved] at hmem
      exact absurd hmem (by simp)
    · exact (hplain hbefore).2 c hc
  · exact (hmove.not_isIdle_of_held hv).elim (h₁ hbefore v) fun hidle => hidle

/-- Giving up all idle holds leaves those that are needed: a hold is given up, then its constraint,
which has nothing folded in, is taken out. -/
theorem Booked.holdsNeeded_releaseAll (h : s.Booked own) (hs : s.Annotated)
    (hroom : s.tableau.Unwrapped) {holds : List (VarId × Hold Q)}
    (hnodup : (holds.map Prod.fst).Nodup)
    (hholds : ∀ e ∈ holds, s.holds.get? e.1 = some e.2 ∧ s.isIdle e.1)
    (hrest : ∀ v ∈ s.holds.keys, v ∈ holds.map Prod.fst ∨ ¬s.isIdle v)
    (hok : (s.releaseAll holds).1 = .ok ()) : (s.releaseAll holds).2.HoldsNeeded := by
  induction holds generalizing s with
  | nil => exact fun v hv => (hrest v hv).resolve_left List.not_mem_nil
  | cons e rest ih =>
      obtain ⟨hget, hidle⟩ := hholds e List.mem_cons_self
      obtain ⟨hfresh, hnodup⟩ := List.nodup_cons.mp hnodup
      cases hc : s.tableau.constraints.get? e.2.constraint with
      | none =>
          rw [releaseAll, Tableau.remove, hc] at hok
          exact absurd hok (by simp)
      | some c =>
          have hdrop : s.Move .other { s with holds := s.holds.erase e.1 } := .drop hidle
          have hremove := Move.remove (s := { s with holds := s.holds.erase e.1 }) s.status hc
          have h₁ := h.move hs hdrop (by simp) (by simp)
          have hs₁ := hs.move hdrop
          have hroom₂ : (s.tableau.withdraw e.2.constraint c.tag).Unwrapped :=
            hroom.of_le (Nat.le_of_eq (Tableau.entered_withdraw s.tableau e.2.constraint c.tag))
          have hplain := (hs.plain hroom e.1 _ c (.inr ⟨_, hget, rfl⟩) hc).1
          have hkept : ∀ v, own v → ¬s.isIdle v → ¬({ s with
              tableau := s.tableau.withdraw e.2.constraint c.tag
              holds := s.holds.erase e.1 } : Solver K Q).isIdle v := fun v hown hv =>
            h₁.not_isIdle_move hs₁ hremove (fun id' c' hid hc' => by
              obtain rfl : e.2.constraint = id' := Act.remove.inj hid
              obtain rfl : c = c' := Option.some.inj (hc.symm.trans hc')
              exact hplain) hown hv
          have hidle₂ := fun w hw => isIdle_remove (w := w) hs.wellFormed e.2.constraint hw
          rw [releaseAll, Tableau.remove, hc] at hok ⊢
          rw [Tableau.remove, hc] at hidle₂
          refine ih (h₁.move hs₁ hremove (by simp) (by simp)) (hs₁.move hremove) hroom₂ hnodup
            (fun e' he' => ?_) (fun v hv => ?_) hok
          · obtain ⟨hget', hidle'⟩ := hholds e' (List.mem_cons_of_mem _ he')
            have hne : e'.1 ≠ e.1 := fun heq => hfresh (heq ▸ List.mem_map_of_mem he')
            refine ⟨?_, hidle₂ e'.1 hidle'⟩
            rw [Assoc.get?_erase, if_neg hne, hget']
          · obtain ⟨hne, hv⟩ := Assoc.mem_keys_erase.mp hv
            rcases hrest v hv with hmem | hneeded
            · exact .inl ((List.mem_cons.mp hmem).resolve_left hne)
            · exact .inr (hkept v (h.noted_own v (.inr hv)) hneeded)

/-- A removal of a constraint that is not hidden leaves holds that are needed, as those that are not
are given up with it. -/
theorem HoldsNeeded.remove (h : s.HoldsNeeded) (hbooked : s.Booked own) (hs : s.Annotated)
    (hroom : s.tableau.Unwrapped) (hanchored : s.Anchored) (hid : ¬s.IsHidden id) :
    (s.remove id).2.HoldsNeeded := by
  cases hc : s.tableau.constraints.get? id with
  | none =>
      rw [Solver.remove, Tableau.remove, hc]
      exact h
  | some c =>
      have hok : (s.remove id).1 = .ok () := by
        refine ((hs.remove_of_hasConstraint (hasConstraint_iff.mpr ⟨c, hc⟩)).2 hroom).1.mpr ?_
        intro v hold hgives
        have hhidden : s.IsHidden hold.constraint := .inr ⟨v, hold, hgives.1, rfl⟩
        exact ⟨fun heq => hid (heq ▸ hhidden), hanchored _ hhidden⟩
      have hmove : s.Move (.remove id)
          { s with tableau := s.tableau.withdraw id c.tag, status := .building } := .remove _ hc
      have hs₁ := hs.move hmove
      rw [Solver.remove, Tableau.remove, hc] at hok ⊢
      have hroom₁ : (s.tableau.withdraw id c.tag).Unwrapped :=
        hroom.of_le (Nat.le_of_eq (Tableau.entered_withdraw s.tableau id c.tag))
      refine (hbooked.move hs hmove (by simp) (by simp)).holdsNeeded_releaseAll hs₁ hroom₁
        ((List.filter_sublist.map Prod.fst).nodup hs₁.nodup_holds) (fun e he => ?_) (fun v hv => ?_)
        hok
      · obtain ⟨hmem, hidle⟩ := List.mem_filter.mp he
        exact ⟨(Assoc.get?_eq_some_iff hs₁.nodup_holds).mpr hmem, hidle⟩
      · refine or_iff_not_imp_right.mpr fun hidle => ?_
        obtain ⟨e, he, rfl⟩ := List.mem_map.mp hv
        exact List.mem_map_of_mem (List.mem_filter.mpr ⟨he, not_not.mp hidle⟩)

/-! ### Handles of hidden constraints -/

/-- As long as handles have not come round, what a command hides was hidden before or has a new
handle. -/
theorem Annotated.isHidden_perform (hs : s.Annotated)
    (hroom : (s.perform command).2.tableau.Unwrapped) (hid : (s.perform command).2.IsHidden id) :
    s.IsHidden id ∨ s.tableau.entered ≤ id.index := by
  revert hroom hid
  refine hs.path_perform (p := fun s' => s'.tableau.Unwrapped → s'.IsHidden id →
    s.IsHidden id ∨ s.tableau.entered ≤ id.index) command ?_ ?_ fun hpath => ?_
  · exact fun _ _ _ _ hid => .inl hid
  · rintro - - (⟨v, hpin⟩ | ⟨v, hold, hhold, -⟩)
    · exact absurd hpin (by simp [reset])
    · exact absurd hhold (by simp [reset])
  · refine (hpath.keeps (p := fun s' => s'.Annotated ∧
      s.tableau.entered ≤ s'.tableau.entered ∧
      (s'.tableau.Unwrapped → s'.IsHidden id → s.IsHidden id ∨ s.tableau.entered ≤ id.index))
      (fun s₁ a s₂ hp ha hmove => ?_) ⟨hs, Nat.le_refl _, fun _ => .inl⟩).2.2
    obtain ⟨hs₁, hnext, hold⟩ := hp
    refine ⟨hs₁.move hmove, hnext.trans (hmove.entered_le hs₁), fun hroom hid => ?_⟩
    have hbefore := hroom.of_le (hmove.entered_le hs₁)
    obtain ⟨v, hv⟩ := isHidden_iff.mp hid
    rcases hmove.hides_or hv with hv | ⟨-, ⟨x, hnote⟩ | rfl⟩
    · exact hold hbefore (isHidden_iff.mpr ⟨v, hv⟩)
    · rw [hnote] at ha
      exact .inr (ha.2 id rfl hbefore)
    · rw [Tableau.nextConstraint_index hbefore]
      exact .inr hnext

/-- Only a reset lets the handles start over. -/
theorem Annotated.entered_le_perform (hs : s.Annotated) (hreset : command ≠ .reset) :
    s.tableau.entered ≤ (s.perform command).2.tableau.entered := by
  refine hs.path_perform
    (p := fun s' => s.tableau.entered ≤ s'.tableau.entered) command
    (fun kind stem _ => ?_) (fun hc => absurd hc hreset) fun hpath => hpath.entered_le hs
  exact Nat.le_of_eq (s.tableau.entered_addVariable kind _).symm

/-- The handle of a constraint that was added was given out, and as long as handles have not come
round it is not that of a hidden one. -/
theorem Annotated.add_ok (hs : s.Annotated) {request : Request K} {relation : Relation}
    (hok : (s.add request relation).1 = .ok id) :
    id.index < (s.add request relation).2.tableau.entered ∧
      (s.tableau.Unwrapped → ¬(s.add request relation).2.IsHidden id) := by
  obtain ⟨htableau, hpins, hholds, hresult⟩ := tableau_add s request relation
  rw [IsHidden, hpins, hholds, htableau]
  rw [hresult] at hok
  rcases hs.wellFormed.insert_or request relation with ⟨c, hid, -, -, hc⟩ | ⟨fault, hfault, -⟩
  · rw [hid] at hok
    obtain rfl := Except.ok.inj hok
    exact ⟨hc.entered_eq ▸ Nat.lt_succ_of_le (Nat.mod_le _ _), hs.not_isHidden_next⟩
  · rw [hfault] at hok
    exact absurd hok (by simp)

/-- The constraint that a command answers with was entered, and is not hidden as long as handles
have not come round. -/
theorem Annotated.perform_ok_constraint (hs : s.Annotated)
    (hok : (s.perform command).1 = .ok (.constraint id)) :
    id.index < (s.perform command).2.tableau.entered ∧
      (s.tableau.Unwrapped → ¬(s.perform command).2.IsHidden id) := by
  have hadd : ∀ request relation,
      (s.add request relation).1.map Reply.constraint = .ok (.constraint id) →
      id.index < (s.add request relation).2.tableau.entered ∧
        (s.tableau.Unwrapped → ¬(s.add request relation).2.IsHidden id) := by
    intro request relation hmap
    refine hs.add_ok ?_
    cases hadd : (s.add request relation).1 with
    | error fault =>
        rw [hadd] at hmap
        exact absurd hmap (by simp [Except.map])
    | ok id' =>
        rw [hadd] at hmap
        exact congrArg Except.ok (Reply.constraint.inj (Except.ok.inj hmap))
  have hdone : ∀ o : Except Fault Unit, (o.map fun _ => Reply.done) ≠ .ok (.constraint id) := by
    intro o
    cases o <;> simp [Except.map]
  cases command with
  | add request relation => exact hadd request relation hok
  | arrange layout strength => exact hadd _ _ hok
  | declare kind stem => exact absurd hok (by simp [perform])
  | remove id' => exact absurd hok (hdone _)
  | pin v x => exact absurd hok (hdone _)
  | unpin v => exact absurd hok (hdone _)
  | optimize => exact absurd hok (hdone _)
  | reset => exact absurd hok (by simp [perform])
  | resetCounters => exact absurd hok (by simp [perform])

/-! ### What agrees -/

/-- A solver is **reconciled** if its tables of pins and holds have no variable in common and speak
of live ones only; a variable is pinned exactly if it is flagged so; the hidden constraints are
there and each is hidden once; every variable counts the constraints that have it folded in; and one
that is folded in somewhere is pinned or held, as a held one is folded in somewhere. -/
structure Reconciled (s : Solver K Q) : Prop where
  disjoint : ∀ v, s.isPinned v → s.isHeld v = false
  isLive : ∀ v, s.isPinned v ∨ s.isHeld v → s.tableau.vars.isLive v
  isPinned_iff : ∀ v x, s.tableau.vars.get? v = some x → (s.isPinned v ↔ x.pinned)
  hasConstraint : ∀ v id, s.Hides v id → s.hasConstraint id
  unique : ∀ v w id, s.Hides v id → s.Hides w id → v = w
  folds_eq : ∀ v x, s.tableau.vars.get? v = some x → x.folds = s.tableau.foldCount v
  noted : ∀ v x, s.tableau.vars.get? v = some x → 0 < x.folds → s.isPinned v ∨ s.isHeld v
  needed : ∀ v x, s.tableau.vars.get? v = some x → s.isHeld v → 0 < x.folds

omit [Scalar Q] [Precision K Q] in

/-- Books in order reconcile with the notes as long as handles have not come round. -/
theorem Booked.reconciled (h : s.Booked own) (hs : s.Annotated) (hroom : s.tableau.Unwrapped)
    (hanchored : s.Anchored) (hneeded : s.HoldsNeeded) : s.Reconciled := by
  have hnoted : ∀ v, s.isPinned v ∨ s.isHeld v ↔ s.Noted v := fun v =>
    or_congr Assoc.contains_iff Assoc.contains_iff
  refine ⟨fun v hv => ?_, fun v hv => ?_, fun v x hx => ⟨fun hv => ?_, fun hv => ?_⟩,
    fun v id hv => ?_, hs.unique hroom, h.counted.folds_eq hroom, fun v x hx hpos => ?_,
    fun v x hx hv => ?_⟩
  · rw [← Bool.not_eq_true]
    exact fun hheld => hs.disjoint v (Assoc.contains_iff.mp hv) (Assoc.contains_iff.mp hheld)
  · exact h.counted.isLive v (h.noted_own v ((hnoted v).mp hv))
  · exact h.flagged v (Assoc.contains_iff.mp hv) x hx
  · exact Assoc.contains_iff.mpr (hs.pinned v x hx hv)
  · exact hanchored id (isHidden_iff.mpr ⟨v, hv⟩)
  · refine (hnoted v).mpr (not_not.mp fun hnot => ?_)
    exact not_isIdle_iff.mpr ⟨x, hx, hpos⟩ (h.idle v hnot)
  · obtain ⟨y, hy, hpos⟩ := not_isIdle_iff.mp (hneeded v (Assoc.contains_iff.mp hv))
    obtain rfl : x = y := Option.some.inj (hx.symm.trans hy)
    exact hpos

end Solver

/-! ### Sessions -/

namespace Session

variable {s : Session K Q} {c : Command K Q}

/-- As long as handles have not come round, a proper command that removes no hidden constraint
leaves holds that are needed. -/
theorem holdsNeeded_perform (h : s.solver.tableau.Unwrapped → s.solver.HoldsNeeded)
    (hbooked : s.solver.Booked (· ∈ s.created)) (hs : s.solver.Annotated)
    (hanchored : s.solver.tableau.Unwrapped → s.solver.Anchored) (hc : s.Proper c)
    (hdiscreet : s.solver.tableau.Unwrapped → s.Discreet c)
    (hroom : (s.perform c).solver.tableau.Unwrapped) : (s.perform c).solver.HoldsNeeded := by
  by_cases hreset : c = .reset
  · rw [hreset]
    exact fun v hv => absurd hv List.not_mem_nil
  have hbefore := hroom.of_le (hs.entered_le_perform hreset)
  cases hremoved : c.removed? with
  | some id =>
      cases c with
      | remove id' =>
          exact (h hbefore).remove hbooked hs hbefore (hanchored hbefore)
            (hdiscreet hbefore id' rfl)
      | _ => exact absurd hremoved (by simp [Command.removed?])
  | none =>
      exact hc.keeps (p := fun _ s' => s'.tableau.Unwrapped → s'.HoldsNeeded) h hs
        (fun kind stem _ _ => (h hbefore).declare hbooked kind stem)
        (fun hc => absurd hc hreset)
        (fun hpath hfixed => (h hbefore).path hbooked hs hpath hremoved hc.2 hfixed) hroom

/-- **All agree** in every session whose caller pins and unpins own variables only, names no
variable twice in a request, and removes no hidden constraint, as long as handles have not come
round. What was removed before a reset does not matter. -/
theorem Run.reconciled
    (h : s.Run fun s c => s.Proper c ∧ (s.solver.tableau.Unwrapped → s.Discreet c))
    (hroom : s.solver.tableau.Unwrapped) : s.solver.Reconciled := by
  have hbooked := (h.mono fun _ _ hc => hc.1).booked
  have hanchored := (h.mono fun _ _ hc => hc.2).anchored
  refine hbooked.reconciled h.reachable.annotated hroom (hanchored hroom) ?_
  clear hbooked hanchored
  revert hroom
  induction h with
  | start settings => exact fun _ v hv => absurd hv List.not_mem_nil
  | step hrun hc ih =>
      exact holdsNeeded_perform ih (hrun.mono fun _ _ hc => hc.1).booked hrun.reachable.annotated
        (hrun.mono fun _ _ hc => hc.2).anchored hc.1 hc.2

end Session

/-! ### Ledgers -/

/-- A session with the handles of the constraints that its caller was given. -/
structure Ledger (K Q : Type) where
  session : Session K Q
  issued : List ConstraintId

namespace Ledger

/-- The handle of a constraint that a reply gives out. -/
def given? : Except Fault Reply → Option ConstraintId
  | .ok (.constraint id) => some id
  | _ => none

/-- A command carried out, and the handle that it gave out noted. A reset voids all handles. -/
def perform (l : Ledger K Q) (c : Command K Q) : Ledger K Q where
  session := l.session.perform c
  issued := (given? (l.session.solver.perform c).1).toList ++
    match c with
    | .reset => []
    | _ => l.issued

/-- A command carried out for a caller who holds on to all handles. -/
def hoard (l : Ledger K Q) (c : Command K Q) : Ledger K Q where
  session := l.session.perform c
  issued := (given? (l.session.solver.perform c).1).toList ++ l.issued

/-- The ledgers that proper commands lead to, as `record` keeps them, none of which removes a
constraint whose handle is not in the ledger. -/
inductive Run (record : Ledger K Q → Command K Q → Ledger K Q) : Ledger K Q → Prop
  | start (settings : Settings) : Run record ⟨Session.start settings, []⟩
  | step {l : Ledger K Q} {c : Command K Q} (h : Run record l) (hproper : l.session.Proper c)
    (hissued : ∀ id ∈ c.removed?, id ∈ l.issued) : Run record (record l c)

variable {l : Ledger K Q} {c : Command K Q} {id : ConstraintId}

/-- A handle was given out by the last command or before it. -/
theorem mem_issued (hid : id ∈ (l.perform c).issued) :
    (l.session.solver.perform c).1 = .ok (.constraint id) ∨ c ≠ .reset ∧ id ∈ l.issued := by
  rcases List.mem_append.mp hid with hgiven | hold
  · rw [Option.mem_toList, given?.eq_def] at hgiven
    split at hgiven
    · rename_i heq
      exact .inl (Option.some.inj hgiven ▸ heq)
    · exact absurd hgiven (by simp)
  · split at hold
    · exact absurd hold List.not_mem_nil
    · rename_i hreset
      exact .inr ⟨hreset, hold⟩

/-- The handles that were given out are those of earlier constraints, and as long as handles have
not come round these are **not hidden**, so no hidden constraint was removed: an older handle stays
that of an older constraint, and nothing old is newly hidden. -/
theorem Run.discreet (h : l.Run perform) :
    l.session.Run (fun s c => s.Proper c ∧ (s.solver.tableau.Unwrapped → s.Discreet c)) ∧
      ∀ id ∈ l.issued, id.index < l.session.solver.tableau.entered ∧
        (l.session.solver.tableau.Unwrapped → ¬l.session.solver.IsHidden id) := by
  induction h with
  | start settings => exact ⟨.start settings, fun id hid => absurd hid List.not_mem_nil⟩
  | @step l c _ hproper hissued ih =>
      obtain ⟨hrun, hplain⟩ := ih
      have hs := hrun.reachable.annotated
      refine ⟨hrun.step ⟨hproper, fun hroom id hid => (hplain id (hissued id hid)).2 hroom⟩,
        fun id hid => ?_⟩
      rcases mem_issued hid with hreply | ⟨hreset, hid⟩
      · obtain ⟨hlt, hnot⟩ := hs.perform_ok_constraint hreply
        have hreset : c ≠ .reset := by
          rintro rfl
          simp [Solver.perform] at hreply
        have hle := hs.entered_le_perform hreset
        exact ⟨hlt, fun hroom => hnot (hroom.of_le hle)⟩
      · obtain ⟨hlt, hnot⟩ := hplain id hid
        have hle := hs.entered_le_perform hreset
        refine ⟨Nat.lt_of_lt_of_le hlt hle, fun hroom hhidden => ?_⟩
        rcases hs.isHidden_perform hroom hhidden with hhidden | hnew
        · exact hnot (hroom.of_le hle) hhidden
        · exact Nat.lt_irrefl _ (Nat.lt_of_lt_of_le hlt hnew)

/-- **Pins, holds and folds agree** in every state that a caller can reach who pins and unpins own
variables only, names no variable twice in a request, and removes only constraints whose handles
were given out since the last reset, as long as fewer constraints were entered since then than there
are handles. -/
theorem Run.books_agree (h : l.Run perform) (hroom : l.session.solver.tableau.Unwrapped) :
    l.session.solver.Reconciled :=
  h.discreet.1.reconciled hroom

/-- A ledger in which a constraint took in the value of a pinned variable, which was then unpinned
and is held, while the other variable of the constraint is pinned. -/
def lent : Ledger Float Float32 :=
  ((((((⟨Session.start {}, []⟩ : Ledger Float Float32).perform (.declare .external "a")).perform
    (.declare .external "b")).perform (.pin ⟨0⟩ 40)).perform
    (.arrange (.equality ⟨1⟩ ⟨0⟩ 10) .fixed)).perform (.unpin ⟨0⟩)).perform (.pin ⟨1⟩ 50)

/-- All agree while the one is held and the other pinned, and after the constraint was removed and
the hold was given up with it. -/
theorem books_agree_of_lent :
    lent.session.solver.tableau.Unwrapped ∧ lent.session.solver.Reconciled ∧
      lent.session.solver.isHeld ⟨0⟩ ∧
      lent.session.solver.isPinned ⟨1⟩ ∧ lent.session.solver.tableau.foldCount ⟨0⟩ = 1 ∧
      (lent.perform (.remove ⟨0⟩)).session.solver.Reconciled ∧
      (lent.perform (.remove ⟨0⟩)).session.solver.isHeld ⟨0⟩ = false := by
  have hrun : lent.Run perform :=
    .step (.step (.step (.step (.step (.step (.start {}) (by decide +kernel) (by decide +kernel))
      (by decide +kernel) (by decide +kernel)) (by decide +kernel) (by decide +kernel))
      (by decide +kernel) (by decide +kernel)) (by decide +kernel) (by decide +kernel))
      (by decide +kernel) (by decide +kernel)
  have hremoved : (lent.perform (.remove ⟨0⟩)).Run perform :=
    hrun.step (by decide +kernel) (by decide +kernel)
  have hroom : lent.session.solver.tableau.Unwrapped := by decide +kernel
  exact ⟨hroom, hrun.books_agree hroom, by decide +kernel, by decide +kernel, by decide +kernel,
    hremoved.books_agree (by decide +kernel), by decide +kernel⟩

/-- A ledger in which a handle from before a reset was removed after it, when two variables were
held: it was that of the hidden constraint of the first. The removal of the constraint that had
taken both in then failed half-way. -/
def hoarded : Ledger Float Float32 :=
  let bound : Request Float := Request.empty.addTerm ⟨0⟩ (1 : Float32)
  let total : Request Float := ((Request.empty.addTerm ⟨2⟩ (1 : Float32)).addTerm ⟨0⟩
    (-1 : Float32)).addTerm ⟨1⟩ (-1 : Float32)
  [.declare .external "", .add bound .ge, .add bound .ge, .reset, .declare .external "",
    .declare .external "", .declare .external "", .pin ⟨0⟩ 40, .pin ⟨1⟩ 50, .add total .eq,
    .unpin ⟨0⟩, .unpin ⟨1⟩, .remove ⟨1⟩, .remove ⟨0⟩].foldl hoard ⟨Session.start {}, []⟩

/-- If handles from before a reset count as given out, the books need not agree: a variable is held
that is folded in nowhere. -/
theorem not_reconciled_of_hoarded : hoarded.Run hoard ∧ ¬hoarded.session.solver.Reconciled := by
  refine ⟨?_, fun h => ?_⟩
  · iterate 14 refine .step ?_ (by decide +kernel) (by decide +kernel)
    exact .start {}
  · have hfolds : (hoarded.session.solver.tableau.vars.get? ⟨1⟩).map Variable.folds = some 0 := by
      decide +kernel
    obtain ⟨x, hx, hzero⟩ := Option.map_eq_some_iff.mp hfolds
    have hpos := h.needed ⟨1⟩ x hx (by decide +kernel)
    exact absurd (hzero ▸ hpos) (Nat.lt_irrefl 0)

end Ledger

end LexSimplex
