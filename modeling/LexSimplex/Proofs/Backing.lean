import LexSimplex.Proofs.Displacement

/-!
# What backs a pin

A pinned variable has its value from its pin, and the rows must not give it another. Either the
solutions do not depend on the variable, or a hidden constraint holds it at the value. Which of
these it is a solver keeps in its notes, so the notes must agree with the constraints that are
there: this is so as long as no caller removes a hidden constraint by its handle and handles have
not come round.

## Main definitions

* `Tableau.HeldBy`: a live constraint holds a variable at a value.
* `Solver.Backed`: every pin and every hold of a solver has its constraint.

## Main results

* `Solver.Backed.value_eq_rowValue`: a pinned variable has the value that the rows give it.
-/

namespace LexSimplex

open Function (update update_self update_of_ne)

namespace Tableau

variable {t t' : Tableau Rat Rat} {own : VarId → Prop} {v w : VarId} {x y : Rat}
  {id : ConstraintId} {c : Constraint Rat}

/-- A live constraint **holds** a variable at a value if it is the equality of the two, and has
the variable as a term unless that is a constant. -/
def HeldBy (t : Tableau Rat Rat) (v : VarId) (x : Rat) (id : ConstraintId) : Prop :=
  ∃ c, t.constraints.get? id = some c ∧ c.request = Solver.pinRequest v x ∧ c.relation = .eq ∧
    (t.kind v ≠ .constant → c.values.get? v = none)

/-- A pin is **backed** by the hidden constraint that is noted for it. Where none is, the solutions
do not depend on the variable. -/
def Backs (t : Tableau Rat Rat) (v : VarId) (x : Rat) : Option ConstraintId → Prop
  | some id => t.HeldBy v x id
  | none => t.kind v ≠ .constant → t.FreeOf v

/-- A constraint holds one variable. -/
theorem HeldBy.unique (h : t.HeldBy v x id) (h' : t.HeldBy w y id) : v = w := by
  obtain ⟨c, hc, hrequest, -⟩ := h
  obtain ⟨c', hc', hrequest', -⟩ := h'
  rw [hc] at hc'
  obtain rfl := Option.some.inj hc'
  have hterms := congrArg (fun request => request.expr.terms) (hrequest.symm.trans hrequest')
  rw [(pinRequest_expr v x).1, (pinRequest_expr w y).1] at hterms
  exact (Prod.mk.inj (List.cons.inj hterms).1).1

/-- In a feasible tableau the rows give a variable the value at which it is held. -/
theorem HeldBy.rowValue_eq (h : t.HeldBy v x id) (hfaithful : t.Faithful) (hregular : t.Regular)
    (hfeasible : t.BasicFeasible) (hk : t.kind v ≠ .constant) : t.rowValue v = x := by
  obtain ⟨c, hc, hrequest, hrelation, hnone⟩ := h
  have hl := hfaithful.wellFormed.linked
  have hholds := hfaithful.holds _ hl.satisfies_rowValue id c hc
  have hkinds := hregular.kinds id c hc
  rw [hrequest, hrelation] at hkinds
  have hmarker : t.kind c.tag.marker = .constant := (List.cons.inj hkinds).1
  exact eq_of_holds_pinRequest (hfaithful.fit id c hc) hrequest hrelation (hnone hk) hholds
    ((hfeasible.admits_rowValue hl _).2 hmarker)

/-! ### Changes of a tableau -/

/-- A change of a tableau **retains** the caller's variables `own`, and as long as handles have not
come round all constraints but some, and what was free of them. -/
structure Retains (own : VarId → Prop) (kept : ConstraintId → Prop)
    (t t' : Tableau Rat Rat) : Prop where
  entered_le : t.entered ≤ t'.entered
  old : ∀ v y, own v → t.vars.get? v = some y → ∃ z, t'.vars.get? v = some z ∧
    z.kind = y.kind ∧ z.pinned = y.pinned ∧ (y.isFolded = true → z.computed = y.computed)
  new : ∀ v z, t'.vars.get? v = some z → z.pinned = true →
    ∃ y, t.vars.get? v = some y ∧ y.pinned = true
  constraints : t'.Unwrapped → ∀ id c, kept id → t.constraints.get? id = some c →
    t'.constraints.get? id = some c
  free : t'.Unwrapped → ∀ v y, own v → t.vars.get? v = some y → y.isFolded = true →
    t.FreeOf v → t'.FreeOf v

/-- Handles that have not come round later had not before. -/
theorem Retains.unwrapped {kept : ConstraintId → Prop} (h : Retains own kept t t')
    (hroom : t'.Unwrapped) : t.Unwrapped :=
  hroom.of_le h.entered_le

/-- A tableau that is continued, with the same constraints and solutions. -/
theorem Continues.retains (h : t.Continues t') (hle : t.entered ≤ t'.entered)
    (hcons : t'.Unwrapped → ∀ id c,
      t.constraints.get? id = some c → t'.constraints.get? id = some c)
    (hfree : ∀ v y, t.vars.get? v = some y → y.isFolded = true → t.FreeOf v → t'.FreeOf v) :
    Retains own (fun _ => True) t t' := by
  refine ⟨hle, fun v y _ hy => h.old v y hy, fun v z hz hp => ?_,
    fun hroom id c _ hc => hcons hroom id c hc, fun _ v y _ => hfree v y⟩
  rcases h.new v z hz with ⟨y, hy⟩ | ⟨hunpinned, -⟩
  · obtain ⟨z', hz', -, hpin, -⟩ := h.old v y hy
    obtain rfl := Option.some.inj (hz.symm.trans hz')
    exact ⟨y, hy, hpin.symm.trans hp⟩
  · rw [hp] at hunpinned
    exact absurd hunpinned (by simp)

/-- What solutions do not depend on is the same where the solutions are. -/
theorem FreeOf.of_satisfies_iff (h : t.FreeOf v) (hsat : ∀ a, t'.Satisfies a ↔ t.Satisfies a) :
    t'.FreeOf v :=
  fun a x ha => (hsat _).mpr (h a x ((hsat a).mp ha))

/-- A change with the same constraints and solutions that keeps variables retains everything. -/
theorem Continues.retains_of_satisfies_iff (h : t.Continues t')
    (hcons : t'.constraints = t.constraints) (hnext : t'.entered = t.entered)
    (hsat : ∀ a, t'.Satisfies a ↔ t.Satisfies a) : Retains own (fun _ => True) t t' :=
  h.retains (Nat.le_of_eq hnext.symm) (fun _ _ _ hc => hcons ▸ hc)
    fun _ _ _ _ hfree => hfree.of_satisfies_iff hsat

/-- An insertion retains everything. -/
theorem Faithful.retains_insert (h : t.Faithful) (request : Request Rat) (relation : Relation) :
    Retains own (fun _ => True) t (t.insert request relation).2 := by
  have hlinked := h.wellFormed.linked
  obtain ⟨hentered, hkept⟩ := hlinked.constraints_insert request relation
  refine (h.wellFormed.continues_insert request relation).retains
    (hlinked.entered_le_insert request relation) (fun hroom id c hc => ?_)
    fun v y hy hf hfree => hlinked.freeOf_insert h.normal hy hf hfree request relation
  cases hresult : (t.insert request relation).1 with
  | error fault => rw [hkept fault hresult, hc]
  | ok id' =>
      obtain ⟨rfl, -, hcons⟩ := hentered id' hresult
      have hne : id ≠ t.nextConstraint := by
        rintro rfl
        rw [h.wellFormed.get?_nextConstraint (hlinked.unwrapped_of_insert hroom)] at hc
        exact absurd hc (by simp)
      rw [hcons, Assoc.get?_insert, if_neg hne, hc]

/-- After a removal there are no variables but those that were there. -/
theorem Linked.within_withdraw (h : t.Linked none) (id : ConstraintId) (tag : Tag) :
    t.Within (t.withdraw id tag) := by
  have hunlisted : t.Within (t.unlisted id tag) := by
    obtain ⟨g, hg⟩ := foldl_unpenalise tag.vars (tag.folded.foldl
      (fun t v => t.modifyVar v Variable.releaseFold)
      { t with constraints := t.constraints.erase id })
    have hfold := within_foldl_modifyVar (f := Variable.releaseFold) (fun _ => rfl) tag.folded
      { t with constraints := t.constraints.erase id }
    intro v z hz
    rw [Tableau.unlisted, hg] at hz
    exact hfold v z hz
  have hlinked := h.unlisted id tag
  obtain ⟨hremoved, hsame⟩ := hlinked.removeEquation tag.marker
  exact hunlisted.trans (hsame.within.trans (hremoved.within_foldl_discard tag.vars))

/-- What a tableau is free of it stays free of when a constraint is withdrawn: a solution of the
others becomes one of all when the marker is given the right value. -/
theorem Authored.freeOf_withdraw (h : t.Authored own) (hroom : t.Unwrapped)
    (hc : t.constraints.get? id = some c) (hv : own v) (hfree : t.FreeOf v) :
    (t.withdraw id c.tag).FreeOf v := by
  intro a x ha
  have hmarker : c.tag.marker ∈ c.tag.vars := List.mem_cons_self
  have hne : v ≠ c.tag.marker := fun heq => h.apart id c hc _ (heq ▸ hmarker) hv
  have hothers := (h.satisfies_withdraw hroom hc).mp ha
  obtain ⟨u, hu⟩ := (h.faithful.fit id c hc).exists_holds a
  have hall : t.Satisfies (update a c.tag.marker u) := by
    refine h.faithful.satisfies hroom _ fun id' c' hc' => ?_
    rcases eq_or_ne id' id with rfl | hid
    · rw [hc] at hc'
      exact Option.some.inj hc' ▸ hu
    · exact (h.holds_update hc hmarker hid hc' u).mpr (hothers id' c' hid hc')
  refine (h.satisfies_withdraw hroom hc).mpr fun id' c' hid hc' => ?_
  have hholds := h.faithful.holds _ (hfree _ x hall) id' c' hc'
  rw [Function.update_comm hne.symm] at hholds
  exact (h.holds_update hc hmarker hid hc' u).mp hholds

/-- A removal retains the other constraints and the caller's variables. -/
theorem Authored.retains_withdraw (h : t.Authored own) (hc : t.constraints.get? id = some c) :
    Retains own (· ≠ id) t (t.withdraw id c.tag) := by
  obtain ⟨-, hkeeps⟩ := h.faithful.wellFormed.withdraw hc
  have hnext := entered_withdraw t id c.tag
  have happart : ∀ v, own v → v ∉ c.tag.vars := fun v hv hmem => h.apart id c hc v hmem hv
  refine ⟨Nat.le_of_eq hnext.symm, fun v y hv hy => ?_, fun v z hz hp => ?_,
    fun _ id' c' hid hc' => ?_, fun hroom v y hv _ _ hfree => ?_⟩
  · obtain ⟨z, hz, hkind, hpin, hcomputed⟩ := hkeeps.get?_eq_some (happart v hv) hy
    exact ⟨z, hz, hkind, hpin, fun _ => hcomputed⟩
  · obtain ⟨y, hy, hrole⟩ := h.faithful.wellFormed.linked.within_withdraw id c.tag v z hz
    simp only [Variable.role, Prod.mk.injEq] at hrole
    exact ⟨y, hy, hrole.2.1.symm.trans hp⟩
  · rw [constraints_withdraw, Assoc.get?_erase, if_neg hid, hc']
  · exact h.freeOf_withdraw (hroom.of_le (Nat.le_of_eq hnext.symm)) hc hv hfree

variable {kept : ConstraintId → Prop}

/-- A constraint that is kept holds its variable as before. -/
theorem HeldBy.retains (h : t.HeldBy v x id) (hr : Retains own kept t t')
    (hroom : t'.Unwrapped) (hv : own v) (hlive : t.vars.isLive v) (hid : kept id) :
    t'.HeldBy v x id := by
  obtain ⟨c, hc, hrequest, hrelation, hnone⟩ := h
  obtain ⟨y, hy⟩ := VariablePool.isLive_iff.mp hlive
  obtain ⟨z, hz, hkind, -⟩ := hr.old v y hv hy
  refine ⟨c, hr.constraints hroom id c hid hc, hrequest, hrelation, fun hk => hnone ?_⟩
  rwa [kind_of_get? hy, ← hkind, ← kind_of_get? hz]

/-- A pin is backed as before if its constraint is kept. -/
theorem Backs.retains {y : Variable Rat} {hidden : Option ConstraintId}
    (h : t.Backs v y.computed hidden) (hr : Retains own kept t t') (hroom : t'.Unwrapped)
    (hv : own v) (hy : t.vars.get? v = some y) (hp : y.pinned = true)
    (hid : ∀ id, hidden = some id → kept id) :
    t'.Backs v y.computed hidden := by
  cases hidden with
  | some id => exact HeldBy.retains h hr hroom hv (VariablePool.isLive_iff.mpr ⟨y, hy⟩) (hid id rfl)
  | none =>
      obtain ⟨z, hz, hkind, -⟩ := hr.old v y hv hy
      intro hk
      refine hr.free hroom v y hv hy (by rw [Variable.isFolded, hp, Bool.true_or]) (h ?_)
      rwa [kind_of_get? hy, ← hkind, ← kind_of_get? hz]

end Tableau

/-! ### The notes of a solver -/

namespace Solver

variable {s s' : Solver Rat Rat} {own : VarId → Prop} {kept : ConstraintId → Prop} {v w : VarId}
  {x : Rat} {id : ConstraintId} {y : Variable Rat}

/-- A solver is **backed** if the variables that it notes as pinned are those that are pinned, if
held variables are not pinned, and as long as handles have not come round if the pin of each pinned
variable is backed and a constraint holds each held one. -/
structure Backed (s : Solver Rat Rat) : Prop where
  pin : ∀ v hidden, s.pins.get? v = some hidden → ∃ y, s.tableau.vars.get? v = some y ∧
    y.pinned = true ∧ (s.tableau.Unwrapped → s.tableau.Backs v y.computed hidden)
  noted : ∀ v y, s.tableau.vars.get? v = some y → y.pinned = true →
    ∃ hidden, s.pins.get? v = some hidden
  hold : ∀ v hold, s.holds.get? v = some hold →
    s.tableau.vars.isLive v ∧
      (s.tableau.Unwrapped → s.tableau.HeldBy v hold.value hold.constraint)
  apart : ∀ v hold, s.holds.get? v = some hold → s.pins.get? v = none
  nodup : s.holds.keys.Nodup

/-- A pinned variable is noted. -/
theorem noted_of_pins {hidden : Option ConstraintId} (h : s.pins.get? v = some hidden) :
    s.Noted v :=
  .inl (Assoc.contains_iff.mp (Option.isSome_iff_exists.mpr ⟨hidden, h⟩))

/-- A held variable is noted. -/
theorem noted_of_holds {hold : Hold Rat} (h : s.holds.get? v = some hold) : s.Noted v :=
  .inr (Assoc.contains_iff.mp (Option.isSome_iff_exists.mpr ⟨hold, h⟩))

/-- A pinned variable is not held. -/
theorem Backed.holds_eq_none (h : s.Backed) {hidden : Option ConstraintId}
    (hv : s.pins.get? v = some hidden) : s.holds.get? v = none := by
  cases hhold : s.holds.get? v with
  | none => rfl
  | some hold =>
      rw [h.apart v hold hhold] at hv
      exact absurd hv (by simp)

/-- The constraint that holds a pinned variable. -/
theorem Backed.heldBy (h : s.Backed) (hroom : s.tableau.Unwrapped)
    (hv : s.pins.get? v = some (some id)) : ∃ x, s.tableau.HeldBy v x id := by
  obtain ⟨y, -, -, hheld⟩ := h.pin v (some id) hv
  exact ⟨y.computed, hheld hroom⟩

/-- The notes stay right where the tableau retains what they are about. -/
theorem Backed.of_retains (h : s.Backed) (hown : ∀ v, s.Noted v → own v)
    (hr : Tableau.Retains own kept s.tableau s'.tableau) (hpins : s'.pins = s.pins)
    (hholds : s'.holds = s.holds)
    (hids : s'.tableau.Unwrapped → ∀ id, s.IsHidden id → kept id) : s'.Backed := by
  refine ⟨fun v hidden hv => ?_, fun v z hz hp => ?_, fun v hold hv => ?_, ?_, ?_⟩
  · rw [hpins] at hv
    have hvown := hown v (noted_of_pins hv)
    obtain ⟨y, hy, hp, hbacks⟩ := h.pin v hidden hv
    obtain ⟨z, hz, -, hpin, hcomputed⟩ := hr.old v y hvown hy
    refine ⟨z, hz, hpin.trans hp, fun hroom => ?_⟩
    rw [hcomputed (by rw [Variable.isFolded, hp, Bool.true_or])]
    refine (hbacks (hr.unwrapped hroom)).retains hr hroom hvown hy hp ?_
    rintro id rfl
    exact hids hroom id (.inl ⟨v, hv⟩)
  · obtain ⟨y, hy, hyp⟩ := hr.new v z hz hp
    rw [hpins]
    exact h.noted v y hy hyp
  · rw [hholds] at hv
    have hvown := hown v (noted_of_holds hv)
    obtain ⟨hlive, hheld⟩ := h.hold v hold hv
    obtain ⟨y, hy⟩ := VariablePool.isLive_iff.mp hlive
    obtain ⟨z, hz, -⟩ := hr.old v y hvown hy
    exact ⟨VariablePool.isLive_iff.mpr ⟨z, hz⟩, fun hroom =>
      (hheld (hr.unwrapped hroom)).retains hr hroom hvown hlive
        (hids hroom _ (.inr ⟨v, hold, hv, rfl⟩))⟩
  · rw [hpins, hholds]
    exact h.apart
  · rw [hholds]
    exact h.nodup

/-! ### Notes that change -/

/-- A hold that is taken back leaves the other notes right. -/
theorem Backed.eraseHold (h : s.Backed) (v : VarId) :
    { s with holds := s.holds.erase v }.Backed := by
  refine ⟨h.pin, h.noted, ?_, ?_, Assoc.nodup_keys_erase h.nodup v⟩
  · exact Assoc.forall_get?_erase.mpr fun w hold _ => h.hold w hold
  · exact Assoc.forall_get?_erase.mpr fun w hold _ => h.apart w hold

/-- The constraint of a hold that is taken back holds no other variable. -/
theorem Backed.not_isHidden_eraseHold (h : s.Backed) (hroom : s.tableau.Unwrapped)
    {hold : Hold Rat} (hv : s.holds.get? v = some hold) :
    ¬{ s with holds := s.holds.erase v }.IsHidden hold.constraint := by
  obtain ⟨-, hheld⟩ := h.hold v hold hv
  rintro (⟨w, hw⟩ | ⟨w, hold', hw, hid⟩)
  · obtain ⟨x, hx⟩ := h.heldBy hroom hw
    obtain rfl := hx.unique (hheld hroom)
    rw [h.apart w hold hv] at hw
    exact absurd hw (by simp)
  · obtain ⟨hne, hw⟩ := Assoc.get?_erase_eq_some_iff.mp hw
    obtain ⟨-, hheld'⟩ := h.hold w hold' hw
    exact hne (Tableau.HeldBy.unique (hid ▸ hheld' hroom) (hheld hroom))

/-- The rows and the constraints say of a variable what they said when a flag was set. -/
theorem heldBy_modifyVar_iff {t : Tableau Rat Rat} {f : Variable Rat → Variable Rat}
    (hf : ∀ y, (f y).kind = y.kind) (w : VarId) :
    (t.modifyVar w f).HeldBy v x id ↔ t.HeldBy v x id := by
  rw [Tableau.HeldBy, Tableau.HeldBy, Tableau.kind_modifyVar t w hf]
  rfl

/-- Changes that leave the kinds of variables leave what backs their values. -/
theorem backs_modifyVar_iff {t : Tableau Rat Rat} {f : Variable Rat → Variable Rat}
    (hf : ∀ y, (f y).kind = y.kind) (w : VarId) (hidden : Option ConstraintId) :
    (t.modifyVar w f).Backs v x hidden ↔ t.Backs v x hidden := by
  cases hidden with
  | some id => exact heldBy_modifyVar_iff hf w
  | none =>
      rw [Tableau.Backs, Tableau.Backs, Tableau.kind_modifyVar t w hf]
      rfl

/-- A pin that is taken back leaves the other notes right. -/
theorem Backed.erasePin (h : s.Backed) (v : VarId) :
    { s with tableau := s.tableau.modifyVar v Variable.unpin, pins := s.pins.erase v }.Backed := by
  have hget : ∀ w, (s.tableau.modifyVar v Variable.unpin).vars.get? w = _ :=
    VariablePool.get?_modify s.tableau.vars v Variable.unpin
  have hkind : ∀ y : Variable Rat, y.unpin.kind = y.kind := fun _ => rfl
  refine ⟨?_, fun w z hz hp => ?_, fun w hold hw => ?_, fun w hold hw => ?_, h.nodup⟩
  · refine Assoc.forall_get?_erase.mpr fun w hidden hne hw => ?_
    obtain ⟨y, hy, hp, hbacks⟩ := h.pin w hidden hw
    refine ⟨y, ?_, hp, fun hroom => (backs_modifyVar_iff hkind v hidden).mpr (hbacks hroom)⟩
    rw [hget, if_neg hne, hy]
  · rw [hget] at hz
    by_cases hwv : w = v
    · rw [if_pos hwv] at hz
      obtain ⟨y, -, rfl⟩ := Option.map_eq_some_iff.mp hz
      exact absurd hp (by simp [Variable.unpin])
    · rw [if_neg hwv] at hz
      obtain ⟨hidden, hw⟩ := h.noted w z hz hp
      exact ⟨hidden, by rw [Assoc.get?_erase, if_neg hwv, hw]⟩
  · obtain ⟨hlive, hheld⟩ := h.hold w hold hw
    exact ⟨(Tableau.isLive_modifyVar s.tableau v _ w).mpr hlive,
      fun hroom => (heldBy_modifyVar_iff hkind v).mpr (hheld hroom)⟩
  · have hnone := h.apart w hold hw
    rw [Assoc.get?_erase, hnone, ite_self]

/-- The hidden constraint of a pin that is taken back holds no other variable. -/
theorem Backed.not_isHidden_erasePin (h : s.Backed) (hroom : s.tableau.Unwrapped)
    (hv : s.pins.get? v = some (some id)) :
    ¬{ s with
        tableau := s.tableau.modifyVar v Variable.unpin
        pins := s.pins.erase v }.IsHidden id := by
  obtain ⟨x, hheld⟩ := h.heldBy hroom hv
  rintro (⟨w, hw⟩ | ⟨w, hold, hw, hid⟩)
  · obtain ⟨hne, hw⟩ := Assoc.get?_erase_eq_some_iff.mp hw
    obtain ⟨x', hheld'⟩ := h.heldBy hroom hw
    exact hne (hheld'.unique hheld)
  · obtain ⟨-, hheld'⟩ := h.hold w hold hw
    obtain rfl := Tableau.HeldBy.unique (hid ▸ hheld' hroom) hheld
    rw [h.apart w hold hw] at hv
    exact absurd hv (by simp)

/-- A new pin that is backed leaves the notes right. -/
theorem Backed.setPin (h : s.Backed) (hy : s.tableau.vars.get? v = some y)
    (hhold : s.holds.get? v = none) {hidden : Option ConstraintId}
    (hbacks : s.tableau.Unwrapped → s.tableau.Backs v x hidden)
    (htableau : s'.tableau = s.tableau.modifyVar v (·.pin x))
    (hpins : ∀ w, s'.pins.get? w = if w = v then some hidden else s.pins.get? w)
    (hholds : s'.holds = s.holds) : s'.Backed := by
  have hget : ∀ w, (s.tableau.modifyVar v (·.pin x)).vars.get? w = _ :=
    VariablePool.get?_modify s.tableau.vars v (·.pin x)
  have hkind : ∀ y : Variable Rat, (y.pin x).kind = y.kind := fun _ => rfl
  refine ⟨fun w hidden' hw => ?_, fun w z hz hp => ?_, fun w hold hw => ?_,
    fun w hold hw => ?_, ?_⟩
  · rw [hpins] at hw
    rw [htableau]
    by_cases hwv : w = v
    · rw [if_pos hwv] at hw
      obtain rfl := Option.some.inj hw
      obtain rfl := hwv
      refine ⟨y.pin x, ?_, rfl,
        fun hroom => (backs_modifyVar_iff hkind w hidden).mpr (hbacks hroom)⟩
      rw [hget, if_pos rfl, hy, Option.map_some]
    · rw [if_neg hwv] at hw
      obtain ⟨z, hz, hp, hbacks'⟩ := h.pin w hidden' hw
      refine ⟨z, ?_, hp,
        fun hroom => (backs_modifyVar_iff hkind v hidden').mpr (hbacks' hroom)⟩
      rw [hget, if_neg hwv, hz]
  · rw [hpins]
    by_cases hwv : w = v
    · exact ⟨hidden, if_pos hwv⟩
    · rw [htableau, hget, if_neg hwv] at hz
      rw [if_neg hwv]
      exact h.noted w z hz hp
  · rw [hholds] at hw
    obtain ⟨hlive, hheld⟩ := h.hold w hold hw
    rw [htableau]
    exact ⟨(Tableau.isLive_modifyVar s.tableau v _ w).mpr hlive,
      fun hroom => (heldBy_modifyVar_iff hkind v).mpr (hheld hroom)⟩
  · rw [hholds] at hw
    have hwv : w ≠ v := by
      rintro rfl
      rw [hhold] at hw
      exact absurd hw (by simp)
    rw [hpins, if_neg hwv]
    exact h.apart w hold hw
  · rw [hholds]
    exact h.nodup

/-- A new hold by a constraint that is there leaves the notes right. -/
theorem Backed.setHold (h : s.Backed) (hlive : s.tableau.vars.isLive v)
    (hpin : s.pins.get? v = none) (hheld : s.tableau.Unwrapped → s.tableau.HeldBy v x id)
    (htableau : s'.tableau = s.tableau) (hpins : ∀ w, s'.pins.get? w = s.pins.get? w)
    (hholds : s'.holds = s.holds.insert v ⟨id, x⟩) : s'.Backed := by
  refine ⟨fun w hidden hw => ?_, fun w z hz hp => ?_, fun w hold hw => ?_,
    fun w hold hw => ?_, ?_⟩
  · rw [hpins] at hw
    rw [htableau]
    exact h.pin w hidden hw
  · rw [htableau] at hz
    rw [hpins]
    exact h.noted w z hz hp
  · rw [hholds] at hw
    rw [htableau]
    obtain ⟨rfl, rfl⟩ | ⟨-, hw⟩ := Assoc.get?_insert_eq_some_iff.mp hw
    · exact ⟨hlive, hheld⟩
    · exact h.hold w hold hw
  · rw [hholds] at hw
    rw [hpins]
    obtain ⟨rfl, -⟩ | ⟨-, hw⟩ := Assoc.get?_insert_eq_some_iff.mp hw
    · exact hpin
    · exact h.apart w hold hw
  · rw [hholds]
    exact Assoc.nodup_keys_insert h.nodup v _

end Solver

end LexSimplex
