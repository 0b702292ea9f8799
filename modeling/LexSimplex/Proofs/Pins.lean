import LexSimplex.Proofs.Backing

/-!
# Operations and pins

Every operation of a caller who names only own variables, and removes no hidden constraint, leaves
the notes of a solver right. Operations that fail half-way are no exception: a pin that is refused
is not noted, and a pin that cannot be released stays.

## Main definitions

* `Solver.Sound`: a solver whose constraints are the caller's and whose notes are right.

## Main results

* `Solver.Sound.pin`, `Solver.Sound.unpin`, `Solver.Sound.remove`: the operations keep a solver
  sound.
-/

namespace LexSimplex

namespace Solver

variable {s s' : Solver Rat Rat} {own : VarId → Prop} {v : VarId} {x : Rat} {id : ConstraintId}
  {y : Variable Rat} {request : Request Rat}

/-- A solver is **sound** for a caller whose variables are `own` if its constraints name only
these, if it notes only these, and if the notes are right. -/
structure Sound (own : VarId → Prop) (s : Solver Rat Rat) : Prop where
  keeping : Keeping own (Tableau.Authored own) s
  backed : s.Backed

/-- The status does not matter. -/
theorem Sound.withStatus (h : s.Sound own) (status : Status) : { s with status }.Sound own := by
  obtain ⟨⟨htableau, hnoted⟩, ⟨hpin, hpinned, hhold, hapart, hnodup⟩⟩ := h
  exact ⟨⟨htableau, hnoted⟩, ⟨hpin, hpinned, hhold, hapart, hnodup⟩⟩

/-- A change of the tableau that retains what the notes are about. -/
theorem Sound.of_retains (h : s.Sound own) {kept : ConstraintId → Prop}
    (hr : Tableau.Retains own kept s.tableau s'.tableau) (hauthored : s'.tableau.Authored own)
    (hpins : s'.pins = s.pins) (hholds : s'.holds = s.holds)
    (hids : s'.tableau.Unwrapped → ∀ id, s.IsHidden id → kept id) : s'.Sound own := by
  refine ⟨h.keeping.of_noted hauthored fun w hw => ?_,
    h.backed.of_retains h.keeping.noted hr hpins hholds hids⟩
  rwa [Noted, hpins, hholds] at hw

/-- An insertion keeps a solver sound. -/
theorem Sound.add (h : s.Sound own)
    (hown : ∀ v ∈ request.expr.vars, s.tableau.vars.isLive v → own v) (relation : Relation) :
    (s.add request relation).2.Sound own := by
  obtain ⟨htableau, hpins, hholds, -⟩ := s.tableau_add request relation
  have hauthored := h.keeping.tableau.insert hown relation
  have hr : Tableau.Retains own (fun _ => True) s.tableau (s.add request relation).2.tableau :=
    htableau.symm ▸ h.keeping.tableau.faithful.retains_insert request relation
  exact h.of_retains hr (htableau.symm ▸ hauthored) hpins hholds
    fun _ _ _ => trivial

/-- A constraint that is not hidden may be removed. -/
theorem Sound.removeConstraint (h : s.Sound own) (hid : s.tableau.Unwrapped → ¬s.IsHidden id) :
    { s with tableau := (s.tableau.remove id).2 }.Sound own := by
  refine Tableau.remove_cases (t := s.tableau)
    (p := fun result => ({ s with tableau := result.2 } : Solver Rat Rat).Sound own)
    (fun _ => h) fun c hc => ?_
  have hr := h.keeping.tableau.retains_withdraw hc
  exact h.of_retains hr (h.keeping.tableau.withdraw hc) rfl rfl
    fun hroom id' hid' heq => hid (hr.unwrapped hroom) (heq ▸ hid')

/-- Taking back a hold with its constraint. -/
theorem Sound.releaseHold (h : s.Sound own) {hold : Hold Rat}
    (hv : s.holds.get? v = some hold) :
    { s with
      tableau := (s.tableau.remove hold.constraint).2
      holds := s.holds.erase v }.Sound own := by
  have herased : { s with holds := s.holds.erase v }.Sound own := by
    refine ⟨h.keeping.of_noted h.keeping.tableau fun w hw => ?_, h.backed.eraseHold v⟩
    exact hw.imp_right fun hmem => (Assoc.mem_keys_erase.mp hmem).2
  exact herased.removeConstraint fun hroom => h.backed.not_isHidden_eraseHold hroom hv

/-- Taking back holds, one after the other. -/
theorem Sound.releaseAll (h : s.Sound own) {holds : Assoc VarId (Hold Rat)}
    (hnodup : holds.keys.Nodup) (hholds : ∀ e ∈ holds, s.holds.get? e.1 = some e.2) :
    (s.releaseAll holds).2.Sound own := by
  induction holds generalizing s with
  | nil => exact h
  | cons e rest ih =>
      obtain ⟨hfirst, hrest⟩ := List.nodup_cons.mp hnodup
      have hstep := h.releaseHold (hholds e List.mem_cons_self)
      rw [Solver.releaseAll]
      dsimp only
      split
      · exact hstep
      · refine ih hstep hrest fun e' he' => ?_
        have hne : e'.1 ≠ e.1 := fun heq => hfirst (heq ▸ List.mem_map_of_mem he')
        rw [Assoc.get?_erase, if_neg hne]
        exact hholds e' (List.mem_cons_of_mem e he')

/-- Releasing the idle holds keeps a solver sound. -/
theorem Sound.releaseIdle (h : s.Sound own) : s.releaseIdle.2.Sound own := by
  have hsub : (s.holds.filter fun e => s.isIdle e.1).Sublist s.holds := List.filter_sublist
  refine h.releaseAll (h.backed.nodup.sublist (hsub.map Prod.fst)) fun e he => ?_
  exact (Assoc.get?_eq_some_iff h.backed.nodup).mpr (hsub.subset he)

/-- **Removing** a constraint that is not hidden. -/
theorem Sound.remove (h : s.Sound own) (hid : s.tableau.Unwrapped → ¬s.IsHidden id) :
    (s.remove id).2.Sound own := by
  have hremoved := h.removeConstraint hid
  rw [Solver.remove]
  split
  · rename_i heq
    rw [heq] at hremoved
    exact hremoved
  · rename_i heq
    rw [heq] at hremoved
    exact (hremoved.withStatus .building).releaseIdle

/-! ### Pinning -/

/-- A variable of the caller's is **open** in a solver if it is live, neither pinned nor held. -/
structure Open (own : VarId → Prop) (s : Solver Rat Rat) (v : VarId) : Prop where
  own : own v
  unpinned : ∃ y, s.tableau.vars.get? v = some y ∧ y.pinned = false
  unheld : s.holds.get? v = none

/-- A removal leaves the caller's variables as they were. -/
theorem Sound.isOpen_removeConstraint (h : s.Sound own) (hv : s.Open own v) (id : ConstraintId) :
    { s with tableau := (s.tableau.remove id).2 }.Open own v := by
  refine ⟨hv.own, ?_, hv.unheld⟩
  refine Tableau.remove_cases (t := s.tableau)
    (p := fun result => ∃ y, result.2.vars.get? v = some y ∧ y.pinned = false)
    (fun _ => hv.unpinned) fun c hc => ?_
  obtain ⟨y, hy, hp⟩ := hv.unpinned
  obtain ⟨z, hz, -, hpin, -⟩ := (h.keeping.tableau.retains_withdraw hc).old v y hv.own hy
  exact ⟨z, hz, hpin.trans hp⟩

/-- Taking back a pin. -/
theorem Sound.erasePin (h : s.Sound own) (v : VarId) :
    { s with
      tableau := s.tableau.modifyVar v Variable.unpin
      pins := s.pins.erase v }.Sound own := by
  refine ⟨h.keeping.of_noted ((Tableau.closed_authored own).unpin _ v h.keeping.tableau)
    fun w hw => ?_, h.backed.erasePin v⟩
  exact hw.imp_left fun hmem => (Assoc.mem_keys_erase.mp hmem).2

/-- A variable whose pin was only noted is open once the note is erased. -/
theorem isOpen_erasePin (hv : own v) (hlive : s.tableau.vars.isLive v)
    (hhold : s.holds.get? v = none) :
    { s with
      tableau := s.tableau.modifyVar v Variable.unpin
      pins := s.pins.erase v }.Open own v := by
  obtain ⟨y, hy⟩ := VariablePool.isLive_iff.mp hlive
  have hget : (s.tableau.modifyVar v Variable.unpin).vars.get? v = _ :=
    VariablePool.get?_modify s.tableau.vars v Variable.unpin v
  rw [if_pos rfl, hy, Option.map_some] at hget
  exact ⟨hv, ⟨y.unpin, hget, rfl⟩, hhold⟩

/-- Taking back a pin with its hidden constraint. -/
theorem Sound.releasePin (h : s.Sound own) (v : VarId) : (s.releasePin v).2.Sound own := by
  rw [Solver.releasePin]
  dsimp only
  split
  · exact h.erasePin v
  · rename_i id hhidden
    have hid : s.pins.get? v = some (some id) := Option.join_eq_some_iff.mp hhidden
    exact (h.erasePin v).removeConstraint fun hroom => h.backed.not_isHidden_erasePin hroom hid

/-- A variable that is not held is open once its pin is released. -/
theorem Sound.isOpen_releasePin (h : s.Sound own) (hv : own v)
    (hlive : s.tableau.vars.isLive v) (hhold : s.holds.get? v = none) :
    (s.releasePin v).2.Open own v := by
  have hopen := isOpen_erasePin hv hlive hhold
  rw [Solver.releasePin]
  dsimp only
  split
  · exact hopen
  · rename_i id _
    exact (h.erasePin v).isOpen_removeConstraint hopen id

/-- Noting a pin that is backed. -/
theorem Sound.notePin (h : s.Sound own) (hv : own v) (hy : s.tableau.vars.get? v = some y)
    (hhold : s.holds.get? v = none) {hidden : Option ConstraintId}
    (hbacks : s.tableau.Unwrapped → s.tableau.Backs v x hidden) :
    (s.notePin v x hidden).Sound own :=
  ⟨h.keeping.notePin (Tableau.closed_authored own) hv x hidden,
    h.backed.setPin hy hhold hbacks rfl (Assoc.get?_insert s.pins v hidden) rfl⟩

/-- An accepted position holds a variable that is not pinned. -/
theorem heldBy_insert {t : Tableau Rat Rat} (h : t.WellFormed) (hy : t.vars.get? v = some y)
    (hp : y.pinned = false) (hid : (t.insert (pinRequest v x) .eq).1 = .ok id) :
    (t.insert (pinRequest v x) .eq).2.HeldBy v x id := by
  obtain ⟨-, -, hcons⟩ := (h.linked.constraints_insert (pinRequest v x) .eq).1 id hid
  have hstates := h.linked.states_draft (pinRequest v x) .eq
  refine ⟨_, ?_, hstates.request_eq, hstates.relation_eq, fun hk => ?_⟩
  · rw [hcons, Assoc.get?_insert, if_pos rfl]
  · refine hstates.get?_values_pinRequest hy ?_
    rw [(h.continues_insert _ _).kind_eq (VariablePool.isLive_iff.mpr ⟨y, hy⟩),
      Tableau.kind_of_get? hy] at hk
    simp [Variable.isFolded, hp, hk]

/-- Pinning an open variable, which stays open if that is refused. -/
theorem Sound.attachPin (h : s.Sound own) (hv : s.Open own v) (x : Rat) :
    (s.attachPin v x).2.Sound own ∧
      ∀ fault, (s.attachPin v x).1 = .error fault → (s.attachPin v x).2.Open own v := by
  obtain ⟨hown, ⟨y, hy, hp⟩, hhold⟩ := hv
  have hwell := h.keeping.tableau.faithful.wellFormed
  have hadded : (s.add (pinRequest v x) .eq).2.Sound own :=
    h.add (fun w hw _ => (vars_pinRequest v x w hw).symm ▸ hown) .eq
  obtain ⟨htableau, -, hholds, houtcome⟩ := s.tableau_add (pinRequest v x) .eq
  obtain ⟨z, hz, -, hpin, -⟩ := (hwell.continues_insert (pinRequest v x) .eq).old v y hy
  rw [Solver.attachPin]
  split
  · split
    · rename_i fault s' heq
      rw [heq] at hadded htableau hholds
      refine ⟨hadded, fun _ _ => ⟨hown, ⟨z, ?_, hpin.trans hp⟩, ?_⟩⟩
      · rw [htableau, hz]
      · rw [hholds, hhold]
    · rename_i id s' heq
      rw [heq] at hadded htableau hholds houtcome
      refine ⟨hadded.notePin hown (y := z) ?_ ?_ ?_, fun _ herror => absurd herror (by simp)⟩
      · rw [htableau, hz]
      · rw [hholds, hhold]
      · rw [htableau]
        exact fun _ => heldBy_insert hwell hy hp houtcome.symm
  · rename_i href
    refine ⟨h.notePin hown hy hhold fun _ hk => ?_, fun _ herror => absurd herror (by simp)⟩
    exact freeOf_of_not_isReferenced hwell.linked hk (by simpa using href)

/-- A variable that constraints took in as a number may be pinned at that number. -/
theorem Sound.pinFixed (h : s.Sound own) (hv : own v) (hy : s.tableau.vars.get? v = some y)
    {fixed : Rat} (hfixed : ∀ hold, s.holds.get? v = some hold → hold.value = fixed) (x : Rat) :
    (s.pinFixed v fixed x).2.Sound own := by
  have hclosed := Tableau.closed_authored own
  rw [Solver.pinFixed]
  split
  · have hcount := hclosed.count s.tableau
      (fun c => { c with infeasible := c.infeasible + 1 }) h.keeping.tableau
    have hr : Tableau.Retains own (fun _ => True) s.tableau
        (s.tableau.count fun c => { c with infeasible := c.infeasible + 1 }) :=
      (Tableau.SameVars.count _).continues.retains_of_satisfies_iff
        (Tableau.constraints_count s.tableau _) (Tableau.entered_count s.tableau _)
        fun _ => Tableau.satisfies_congr (Tableau.rows_count s.tableau _)
    exact h.of_retains hr hcount rfl rfl fun _ _ _ => trivial
  · rename_i heq
    have hxfixed : x = fixed := by simpa using heq
    split
    · exact h
    · rename_i hold hhold
      have herased : { s with holds := s.holds.erase v }.Sound own := by
        refine ⟨h.keeping.of_noted h.keeping.tableau fun w hw => ?_, h.backed.eraseHold v⟩
        exact hw.imp_right fun hmem => (Assoc.mem_keys_erase.mp hmem).2
      obtain ⟨-, hheld⟩ := h.backed.hold v hold hhold
      refine herased.notePin hv hy ?_ ?_
      · rw [Assoc.get?_erase, if_pos rfl]
      · rw [hxfixed, ← hfixed hold hhold]
        exact hheld

/-- Pinning a pinned variable anew. Where that is refused and the old pin cannot be put back, the
variable is open. -/
theorem Sound.repin (h : s.Sound own) (hv : own v) (hlive : s.tableau.vars.isLive v)
    (hhold : s.holds.get? v = none) (previous x : Rat) :
    (s.repin v previous x).2.Sound own := by
  have hreleased := h.releasePin v
  have hopen := h.isOpen_releasePin hv hlive hhold
  rw [Solver.repin]
  split
  · rename_i heq
    rwa [heq] at hreleased
  · rename_i heq
    rw [heq] at hreleased hopen
    obtain ⟨hattached, hrefused⟩ := hreleased.attachPin hopen x
    split
    · rename_i heq
      rwa [heq] at hattached
    · rename_i fault s' heq
      rw [heq] at hattached hrefused
      obtain ⟨hback, -⟩ := hattached.attachPin (hrefused fault rfl) previous
      split
      · rename_i heq
        rwa [heq] at hback
      · rename_i heq
        rw [heq] at hback
        exact hback.withStatus .infeasible

/-- **Pinning** a variable of the caller's. -/
theorem Sound.pin (h : s.Sound own) (hv : s.tableau.vars.isLive v → own v) (x : Rat) :
    (s.pin v x).2.Sound own := by
  rw [Solver.pin]
  split
  · exact h
  · rename_i y hy
    have hlive := VariablePool.isLive_iff.mpr ⟨y, hy⟩
    have hown := hv hlive
    split
    · rename_i fixed hfixed
      refine h.pinFixed hown hy (fun hold hhold => ?_) x
      rw [fixedValue?, hhold] at hfixed
      exact Option.some.inj hfixed
    · rename_i hfixed
      have hhold : s.holds.get? v = none := by
        cases hholds : s.holds.get? v with
        | none => rfl
        | some hold =>
            rw [fixedValue?, hholds] at hfixed
            exact absurd hfixed (by simp)
      split
      · exact h.repin hown hlive hhold y.computed x
      · rename_i hcontains
        refine (h.attachPin ⟨hown, ⟨y, hy, ?_⟩, hhold⟩ x).1
        by_contra hp
        obtain ⟨hidden, hpins⟩ := h.backed.noted v y hy (by simpa using hp)
        rw [Assoc.contains, hpins] at hcontains
        exact hcontains rfl

/-! ### Unpinning -/

/-- A pinned variable becomes held, or stays pinned if its constraint is refused. -/
theorem Sound.hold (h : s.Sound own) (hy : s.tableau.vars.get? v = some y)
    {hidden : Option ConstraintId} (hv : s.pins.get? v = some hidden) :
    (s.hold v y.computed hidden).2.Sound own := by
  have hown := h.keeping.noted v (noted_of_pins hv)
  refine ⟨h.keeping.hold (Tableau.closed_authored own) hown y.computed hidden, ?_⟩
  obtain ⟨y', hy', -, hbacks⟩ := h.backed.pin v hidden hv
  obtain rfl := Option.some.inj (hy.symm.trans hy')
  have herased := h.erasePin v
  obtain ⟨-, ⟨z, hz, hp⟩, hunheld⟩ := isOpen_erasePin hown
    (VariablePool.isLive_iff.mpr ⟨y, hy⟩) (h.backed.holds_eq_none hv)
  have hkind : ∀ y : Variable Rat, y.unpin.kind = y.kind := fun _ => rfl
  have hfree : s.tableau.Unwrapped →
      (s.tableau.modifyVar v Variable.unpin).Backs v y.computed hidden :=
    fun hroom => (backs_modifyVar_iff hkind v hidden).mpr (hbacks hroom)
  have hlive := VariablePool.isLive_iff.mpr ⟨z, hz⟩
  have herase : (s.pins.erase v).get? v = none := by
    rw [Assoc.get?_erase, if_pos rfl]
  cases hidden with
  | some id => exact herased.backed.setHold hlive herase hfree rfl (fun _ => rfl) rfl
  | none =>
      have hfaithful := herased.keeping.tableau.faithful
      have hwell := hfaithful.wellFormed
      have hauthored := (Tableau.closed_authored own).insert _ (pinRequest v y.computed) .eq
        (fun w hw _ => (vars_pinRequest v y.computed w hw).symm ▸ hown) herased.keeping.tableau
      have hinserted : { s with
          tableau :=
            ((s.tableau.modifyVar v Variable.unpin).insert (pinRequest v y.computed) .eq).2
          pins := s.pins.erase v }.Sound own :=
        herased.of_retains (hfaithful.retains_insert (pinRequest v y.computed) .eq) hauthored rfl
          rfl fun _ _ _ => trivial
      have hle := hwell.linked.entered_le_insert (pinRequest v y.computed) .eq
      obtain ⟨u, hu, hukind, hup, -⟩ :=
        (hwell.continues_insert (pinRequest v y.computed) .eq).old v z hz
      rw [Solver.hold]
      split
      · rename_i fault t heq
        rw [heq] at hinserted hu hle
        obtain ⟨-, -, hrefused⟩ :=
          hwell.linked.satisfies_insert hfaithful.normal (pinRequest v y.computed) .eq
        rw [heq] at hrefused
        have hback : t.Unwrapped → t.Backs v y.computed none := by
          intro hroom hk
          refine (hfree (hroom.of_le hle) ?_).of_satisfies_iff (hrefused fault rfl)
          rwa [Tableau.kind_of_get? hz, ← hukind, ← Tableau.kind_of_get? hu]
        refine hinserted.backed.setPin hu hunheld hback rfl (fun w => ?_) rfl
        rw [Assoc.get?_erase]
        by_cases hwv : w = v
        · rw [if_pos hwv, hwv, hv]
        · rw [if_neg hwv, if_neg hwv]
      · rename_i id t heq
        have hheld : ((s.tableau.modifyVar v Variable.unpin).insert
            (pinRequest v y.computed) .eq).2.HeldBy v y.computed id :=
          heldBy_insert hwell hz hp (by rw [heq])
        rw [heq] at hinserted hu hheld
        exact hinserted.backed.setHold (VariablePool.isLive_iff.mpr ⟨u, hu⟩) herase
          (fun _ => hheld) rfl (fun _ => rfl) rfl

/-- **Unpinning** a variable. -/
theorem Sound.unpin (h : s.Sound own) (v : VarId) : (s.unpin v).2.Sound own := by
  have hbuilding := h.withStatus .building
  rw [Solver.unpin]
  split
  · exact h
  · rename_i y hy
    dsimp only
    split
    · exact hbuilding.releasePin v
    · rename_i hidden hpins
      split
      · exact hbuilding.hold hy hpins
      · exact hbuilding.releasePin v

/-! ### The other operations -/

/-- A new variable is neither pinned nor held. -/
theorem Backed.addVariable (h : s.Backed) (hnoted : ∀ v, s.Noted v → own v) (kind : Kind)
    (stem : Option String) : { s with tableau := (s.tableau.addVariable kind stem).2 }.Backed := by
  have hr : Tableau.Retains own (fun _ => True) s.tableau (s.tableau.addVariable kind stem).2 :=
    (s.tableau.continues_addVariable kind stem).retains_of_satisfies_iff
      (Tableau.constraints_addVariable s.tableau kind stem)
      (Tableau.entered_addVariable s.tableau kind stem)
      fun _ => Tableau.satisfies_congr (Tableau.rows_addVariable s.tableau kind stem)
  exact h.of_retains hnoted hr rfl rfl fun _ _ _ => trivial

/-- After an optimisation the notes are still right. -/
theorem Sound.optimize (h : s.Sound own) : s.optimize.2.Backed := by
  have hcount := (Tableau.closed_authored own).count s.tableau
    (fun c => { c with optimize := c.optimize + 1 }) h.keeping.tableau
  have hwell := hcount.faithful.wellFormed
  obtain ⟨-, hsat⟩ := hwell.linked.satisfies_minimise hcount.faithful.normal .goal
  have hcounted := Tableau.SameVars.count (t := s.tableau)
    fun c => { c with optimize := c.optimize + 1 }
  obtain ⟨⟨hcontinues, hcons, hnext, hsat'⟩, hpins, hholds⟩ := s.tableau_optimize
    (p := fun t => s.tableau.Continues t ∧ t.constraints = s.tableau.constraints ∧
      t.entered = s.tableau.entered ∧ ∀ a, t.Satisfies a ↔ s.tableau.Satisfies a)
    ⟨(hcounted.trans (hwell.linked.sameVars_minimise .goal)).continues,
      (Tableau.constraints_minimise .goal _).trans (Tableau.constraints_count _ _),
      (Tableau.entered_minimise .goal _).trans (Tableau.entered_count _ _),
      fun a => (hsat a).trans (Tableau.satisfies_congr (Tableau.rows_count _ _))⟩
    fun t ht => ⟨ht.1.trans t.continues_settle, ht.2⟩
  exact h.backed.of_retains h.keeping.noted
    (hcontinues.retains_of_satisfies_iff hcons hnext hsat') hpins hholds fun _ _ _ => trivial

/-- A solver with nothing in it notes nothing. -/
theorem Backed.of_nothing (hvars : ∀ v, s.tableau.vars.get? v = none) (hpins : s.pins = [])
    (hholds : s.holds = []) : s.Backed := by
  refine ⟨?_, fun v y hy => ?_, ?_, ?_, ?_⟩
  · rw [hpins]
    exact fun _ _ hv => absurd hv (by simp)
  · rw [hvars] at hy
    exact absurd hy (by simp)
  · rw [hholds]
    exact fun _ _ hv => absurd hv (by simp)
  · rw [hholds]
    exact fun _ _ hv => absurd hv (by simp)
  · rw [hholds]
    exact List.nodup_nil

end Solver

end LexSimplex
