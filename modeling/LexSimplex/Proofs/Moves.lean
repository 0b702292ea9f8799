import LexSimplex.Proofs.Notes

/-!
# The moves of a solver

The operations that concern pins and holds change the notes and the tableau one step at a time, and
several of them can fail between two steps. What an operation does is therefore told as a **path**
of moves, each of which leaves notes that make sense by themselves. What every move keeps, every
operation keeps, wherever it fails.

## Main definitions

* `Act`, `Solver.Move`, `Solver.Path`: the moves of a solver.
* `Command.Does`: what the moves of a command may be.

## Main results

* `Solver.Annotated.move`: a move keeps the notes fitting.
* `Solver.pin_cases`, `Solver.Annotated.attachPin_cases`: what pinning can come to.
* `Solver.Annotated.path_perform`: the moves by which a command works.
* `Solver.Reachable.annotated`: the notes of every reachable solver fit its tableau.
-/

namespace LexSimplex

variable {K Q : Type} [Coefficient K] [Scalar Q]

/-- What a **move** of a solver does that others have to know of: it enters a request, takes out a
constraint, or notes a variable as pinned to a value with its hidden constraint. -/
inductive Act (K Q : Type) where
  | enter (request : Request K)
  | remove (id : ConstraintId)
  | note (v : VarId) (x : Q) (hidden : Option ConstraintId)
  | other

namespace Solver

variable [Precision K Q]

/-- The **moves** of a solver. Apart from quiet changes a constraint is entered or taken out, and
the notes of one variable change: it is pinned, or a held one is pinned by the constraint that
holds it, one noted as pinned is flagged so, a pin or a hold that nothing needs is given up, or a
pinned variable that constraints took in becomes held, by the hidden constraint of its pin or by a
new one. -/
inductive Move (s : Solver K Q) : Act K Q → Solver K Q → Prop
  | quiet {s' : Solver K Q} (ht : s.tableau.Quiet s'.tableau) (hpins : s'.pins = s.pins)
    (hholds : s'.holds = s.holds) : Move s .other s'
  | enter {c : Constraint K} {t' : Tableau K Q} (status : Status) (hc : s.tableau.Entered c t') :
    Move s (.enter c.request) { s with tableau := t', status := status }
  | remove {id : ConstraintId} {c : Constraint K} (status : Status)
    (hc : s.tableau.constraints.get? id = some c) :
    Move s (.remove id) { s with tableau := s.tableau.withdraw id c.tag, status := status }
  | note {v : VarId} (x : Q) {hidden : Option ConstraintId}
    (hv : s.tableau.Unwrapped → s.tableau.vars.isLive v)
    (hnoted : ¬s.Noted v) (hidle : s.isIdle v) (hhidden : ∀ id ∈ hidden, s.Spare v id) :
    Move s (.note v x hidden) (s.notePin v x hidden)
  | take {v : VarId} {hold : Hold Q} (x : Q) (hv : s.tableau.vars.isLive v)
    (hhold : s.holds.get? v = some hold) (hx : x == hold.value) :
    Move s .other ({ s with holds := s.holds.erase v }.notePin v x (some hold.constraint))
  | flag {v : VarId} {y : Variable Q} (hpin : v ∈ s.pins.keys)
    (hy : s.tableau.vars.get? v = some y) :
    Move s .other { s with tableau := s.tableau.modifyVar v (·.pin y.computed) }
  | free {v : VarId} (hidle : v ∈ s.pins.keys → s.isIdle v) :
    Move s .other
      { s with tableau := s.tableau.modifyVar v Variable.unpin, pins := s.pins.erase v }
  | drop {v : VarId} (hidle : s.isIdle v) : Move s .other { s with holds := s.holds.erase v }
  | keep {v : VarId} {y : Variable Q} {id : ConstraintId} (hpin : s.pins.get? v = some (some id))
    (hy : s.tableau.vars.get? v = some y) (hfolds : 0 < y.folds) :
    Move s .other
      ({ s with tableau := s.tableau.modifyVar v Variable.unpin }.noteHold v y.computed id)
  | enterHold {v : VarId} {y : Variable Q} {c : Constraint K} {t' : Tableau K Q}
    (hpin : s.pins.get? v = some none) (hy : s.tableau.vars.get? v = some y)
    (hfolds : 0 < y.folds) (hc : (s.tableau.modifyVar v Variable.unpin).Entered c t')
    (hrequest : c.request = pinRequest v y.computed) :
    Move s (.enter c.request)
      ({ s with tableau := t' }.noteHold v y.computed s.tableau.nextConstraint)

/-- A **path** of moves, each of them allowed where it is made. -/
inductive Path (allowed : Solver K Q → Act K Q → Prop) (s : Solver K Q) : Solver K Q → Prop
  | refl : Path allowed s s
  | step {a : Act K Q} {s' s'' : Solver K Q} (h : Path allowed s s') (ha : allowed s' a)
    (hmove : s'.Move a s'') : Path allowed s s''

variable {s s' s'' : Solver K Q} {v w : VarId} {id : ConstraintId} {c : Constraint K} {a : Act K Q}

section Path

variable {allowed : Solver K Q → Act K Q → Prop} {p : Solver K Q → Prop}

/-- Paths may be joined. -/
theorem Path.trans (h : s.Path allowed s') (h' : s'.Path allowed s'') : s.Path allowed s'' := by
  induction h' with
  | refl => exact h
  | step _ ha hmove ih => exact ih.step ha hmove

/-- A move is a path. -/
theorem Move.path (h : s.Move a s') (ha : allowed s a) : s.Path allowed s' :=
  Path.refl.step ha h

/-- What the allowed moves keep, a path of them keeps. -/
theorem Path.keeps (h : s.Path allowed s')
    (hstep : ∀ s a s', p s → allowed s a → s.Move a s' → p s') (hs : p s) : p s' := by
  induction h with
  | refl => exact hs
  | step _ ha hmove ih => exact hstep _ _ _ ih ha hmove

end Path

/-! ### Moves keep the notes fitting -/

/-- A variable that is not flagged is not folded into a request for its position. -/
theorem pinnedIn_pinRequest {t : Tableau K Q} (x : Q)
    (hv : ∀ y, t.vars.get? v = some y → y.pinned = false) :
    t.pinnedIn (pinRequest v x : Request K).expr = [] := by
  rw [Tableau.pinnedIn, List.filter_eq_nil_iff]
  intro w hw
  obtain rfl := vars_pinRequest v x w hw
  cases hy : t.vars.get? w with
  | none => simp
  | some y => simp [hv y hy]

namespace Annotated

/-- A constraint that was entered for a variable without a flag has nothing folded in. -/
theorem folded_of_pinRequest {t t' : Tableau K Q} {x : Q} (hc : t.Entered c t')
    (hrequest : c.request = pinRequest v x)
    (hflag : ∀ y, t.vars.get? v = some y → y.pinned = false) : c.tag.folded = [] := by
  rw [hc.folded_eq, hrequest, pinnedIn_pinRequest x hflag]

/-- So it is spare for the variable. -/
theorem spare_of_entered (h : s.Annotated) {t' : Tableau K Q} (hc : s.tableau.Entered c t')
    (hfolded : c.tag.folded = []) (hv : s.tableau.Unwrapped → s.tableau.vars.isLive v)
    (status : Status) :
    ({ s with tableau := t', status := status } : Solver K Q).Spare v
      s.tableau.nextConstraint := by
  refine ⟨c, ?_, hfolded, fun hroom => ?_⟩
  · exact hc.constraints_eq ▸ (Assoc.get?_insert _ _ _ _).trans (if_pos rfl)
  · have hbefore := hroom.of_le (hc.entered_eq ▸ Nat.le_succ _ : s.tableau.entered ≤ t'.entered)
    exact ⟨h.not_isHidden_next hbefore,
      fun hmem => VariablePool.not_isLive_of_get? (hc.fresh v hmem) (hv hbefore)⟩

/-- A **move** keeps the notes fitting. -/
theorem move (h : s.Annotated) (hmove : s.Move a s') : s'.Annotated := by
  cases hmove with
  | quiet ht hpins hholds => exact h.quiet ht hpins hholds
  | enter status hc => exact h.enter hc status
  | remove status hc => exact h.withdraw hc status
  | note x _ hnoted _ hhidden => exact h.notePin x hnoted hhidden
  | take x _ hhold _ => exact h.take hhold x
  | @flag v y hpin hy =>
      refine h.of_hides (v := v) (h.wellFormed.modifyVar v fun _ => rfl) h.nodup h.nodup_holds
        h.disjoint ?_ (Nat.le_refl _) (fun _ _ _ _ hc => hc) fun w id hw => .inl hw
      intro w x hx hflag
      rw [Tableau.get?_modifyVar] at hx
      split at hx
      · rename_i hw
        exact hw ▸ hpin
      · exact h.pinned w x hx hflag
  | free _ => exact h.free _
  | drop _ => exact h.drop _
  | keep hpin _ _ =>
      exact (h.unflag _).noteHold _ (fun y hy => Tableau.pinned_modifyVar_unpin hy)
        (.inl (.inl hpin))
  | @enterHold v y c t' hpin hy hfolds hc hrequest =>
      have hfree := h.unflag v
      have hlive : (s.tableau.modifyVar v Variable.unpin).vars.isLive v :=
        (s.tableau.isLive_flag v v _).mpr (VariablePool.isLive_iff.mpr ⟨y, hy⟩)
      have hfolded := folded_of_pinRequest hc hrequest
        fun y hy => Tableau.pinned_modifyVar_unpin hy
      refine (hfree.enter hc s.status).noteHold _ (fun z hz => ?_)
        (.inr (hfree.spare_of_entered hc hfolded (fun _ => hlive) s.status))
      obtain ⟨z', hz', hcore⟩ := hc.grown.old v _
        (by rw [Tableau.get?_modifyVar, if_pos rfl, hy]; rfl)
      obtain rfl : z' = z := Option.some.inj (hz'.symm.trans hz)
      exact (congrArg Variable.pinned hcore :)

end Annotated

/-- The notes still fit at the end of a path. -/
theorem Path.annotated {allowed : Solver K Q → Act K Q → Prop} (h : s.Path allowed s')
    (hs : s.Annotated) : s'.Annotated :=
  h.keeps (fun _ _ _ hs _ hmove => hs.move hmove) hs

/-- As long as handles have not come round, a constraint stays until it is taken out: one that is
entered takes a handle that was not in use. -/
theorem Move.get?_constraints (h : s.Annotated) (hmove : s.Move a s')
    (hroom : s'.tableau.Unwrapped) (hc : s.tableau.constraints.get? id = some c) :
    s'.tableau.constraints.get? id = some c ∨ a = .remove id := by
  have hnext := h.wellFormed.numbered id c hc
  have hentered : ∀ {t t' : Tableau K Q} {c' : Constraint K}, t.Entered c' t' →
      t.constraints = s.tableau.constraints → t.entered = s.tableau.entered → t'.Unwrapped →
      t'.constraints.get? id = some c := by
    intro t t' c' hc' hcons hsame hroom
    have hbefore := hroom.of_le (hc'.entered_eq ▸ Nat.le_succ _ : t.entered ≤ t'.entered)
    rw [hc'.constraints_eq, Assoc.get?_insert, if_neg, hcons, hc]
    rintro rfl
    rw [Tableau.nextConstraint_index hbefore, hsame] at hnext
    exact Nat.lt_irrefl _ hnext
  cases hmove with
  | quiet ht _ _ => exact .inl (ht.constraints_eq ▸ hc)
  | enter _ hc' => exact .inl (hentered hc' rfl rfl hroom)
  | @remove id' c' _ hc' =>
      rw [(h.wellFormed.withdrawn hc').constraints_eq, Assoc.get?_erase]
      by_cases hid : id = id'
      · exact .inr (hid ▸ rfl)
      · exact .inl (by rw [if_neg hid, hc])
  | note _ _ _ _ _ => exact .inl hc
  | take _ _ _ _ => exact .inl hc
  | flag _ _ => exact .inl hc
  | free _ => exact .inl hc
  | drop _ => exact .inl hc
  | keep _ _ _ => exact .inl hc
  | enterHold _ _ _ hc' _ => exact .inl (hentered hc' rfl rfl hroom)

/-- What is newly hidden is there, and it was noted so or has a new handle. -/
theorem Move.hides_or (hmove : s.Move a s') (hhides : s'.Hides v id) :
    s.Hides v id ∨ (∃ c, s'.tableau.constraints.get? id = some c) ∧
      ((∃ x, a = .note v x (some id)) ∨ id = s.tableau.nextConstraint) := by
  cases hmove with
  | quiet _ hpins hholds =>
      rw [Hides, hpins, hholds] at hhides
      exact .inl hhides
  | enter _ _ => exact .inl hhides
  | remove _ _ => exact .inl hhides
  | note x _ _ _ hhidden =>
      rcases hhides.of_notePin with hhides | ⟨hv, hid⟩
      · exact .inl hhides
      · obtain ⟨c, hc, -⟩ := hhidden id hid
        exact .inr ⟨⟨c, hc⟩, .inl ⟨x, by rw [hv, hid]⟩⟩
  | take x _ hhold _ =>
      rcases hhides.of_notePin with hhides | ⟨rfl, hid⟩
      · exact .inl hhides.of_eraseHold
      · exact .inl (.inr ⟨_, hhold, Option.some.inj hid⟩)
  | flag _ _ => exact .inl hhides
  | free _ => exact .inl hhides.of_erasePin
  | drop _ => exact .inl hhides.of_eraseHold
  | keep hpin _ _ =>
      rcases hhides.of_noteHold with hhides | ⟨rfl, rfl⟩
      · exact .inl hhides
      · exact .inl (.inl hpin)
  | @enterHold v y c t' _ _ _ hc _ =>
      rcases hhides.of_noteHold with hhides | ⟨rfl, rfl⟩
      · exact .inl hhides
      · refine .inr ⟨⟨c, ?_⟩, .inr rfl⟩
        have hget : t'.constraints.get? s.tableau.nextConstraint = some c := by
          rw [hc.constraints_eq]
          exact (Assoc.get?_insert _ _ _ _).trans (if_pos rfl)
        exact hget

/-- Handles of constraints only count up. -/
theorem Move.entered_le (h : s.Annotated) (hmove : s.Move a s') :
    s.tableau.entered ≤ s'.tableau.entered := by
  cases hmove with
  | quiet ht _ _ => exact Nat.le_of_eq ht.entered_eq.symm
  | enter _ hc => exact hc.entered_eq ▸ Nat.le_succ _
  | remove _ hc => exact Nat.le_of_eq (h.wellFormed.withdrawn hc).entered_eq.symm
  | note _ _ _ _ _ => exact Nat.le_refl _
  | take _ _ _ _ => exact Nat.le_refl _
  | flag _ _ => exact Nat.le_refl _
  | free _ => exact Nat.le_refl _
  | drop _ => exact Nat.le_refl _
  | keep _ _ _ => exact Nat.le_refl _
  | enterHold _ _ _ hc _ => exact hc.entered_eq ▸ Nat.le_succ _

/-- No path takes back that a constraint was entered. -/
theorem Path.entered_le {allowed : Solver K Q → Act K Q → Prop} (h : s.Path allowed s')
    (hs : s.Annotated) : s.tableau.entered ≤ s'.tableau.entered := by
  refine (h.keeps (p := fun s' => s.tableau.entered ≤ s'.tableau.entered ∧
    s'.Annotated) (fun s₁ a s₂ hp _ hmove => ?_) ⟨Nat.le_refl _, hs⟩).1
  exact ⟨hp.1.trans (hmove.entered_le hp.2), hp.2.move hmove⟩

/-- A tableau that changed quietly. -/
theorem Move.of_quiet {t' : Tableau K Q} (ht : s.tableau.Quiet t') :
    s.Move .other { s with tableau := t' } :=
  .quiet ht rfl rfl

end Solver

/-! ### The moves by which an operation works -/

/-- What the **moves of a command** may be, where it was given to the solver `s`: it enters its own
request or positions, takes out the constraint that it names and others that are not hidden and have
nothing folded in, and notes the variable that it pins, with a new hidden constraint if there is
one. What is said of others and of the new one holds as long as handles have not come round. -/
def Command.Does [Precision K Q] (command : Command K Q) (s s' : Solver K Q) : Act K Q → Prop
  | .enter request => (∃ relation, command.request? = some (request, relation)) ∨
      ∃ (v : VarId) (x : Q), request = Solver.pinRequest v x
  | .remove id => (id ∈ command.removed? ∧ s' = s) ∨
      (s'.tableau.Unwrapped → ¬s'.IsHidden id ∧
        ∀ c, s'.tableau.constraints.get? id = some c → c.tag.folded = [])
  | .note v _ hidden => (∃ x, command = .pin v x) ∧
      ∀ id ∈ hidden, s'.tableau.Unwrapped → s.tableau.entered ≤ id.index
  | .other => True

namespace Solver

variable [Precision K Q] {s s' : Solver K Q} {v : VarId} {id : ConstraintId}

/-- What **pinning a variable that is not noted** comes to: it is noted, with a hidden constraint if
the tableau speaks of it, or the insertion of that constraint failed. -/
theorem Annotated.attachPin_cases {p : Except Fault Unit × Solver K Q → Prop} (h : s.Annotated)
    (hnoted : ¬s.Noted v) {x : Q}
    (hplain : s.isReferenced v = false → p (.ok (), s.notePin v x none))
    (hhidden : ∀ c t', s.isReferenced v → c.request = pinRequest v x → s.tableau.Entered c t' →
      c.tag.folded = [] →
      p (.ok (), { s with tableau := t', status := .building }.notePin v x
        (some s.tableau.nextConstraint)))
    (hfailed : ∀ fault t' status, s.isReferenced v → s.tableau.Barren t' →
      p (.error fault, { s with tableau := t', status := status })) : p (s.attachPin v x) := by
  rw [attachPin]
  split
  · rename_i hreferenced
    rw [add]
    rcases h.wellFormed.insert_or (pinRequest v x) .eq with ⟨c, hok, hrequest, -, hc⟩ |
      ⟨fault, herror, hbarren⟩
    · have hfolded := folded_of_pinRequest hc hrequest fun y hy => h.pinned_eq_false hnoted hy
      rw [← Prod.mk.eta (p := s.tableau.insert (pinRequest v x) .eq), hok]
      exact hhidden c _ hreferenced hrequest hc hfolded
    · rw [← Prod.mk.eta (p := s.tableau.insert (pinRequest v x) .eq), herror]
      exact hfailed fault _ _ hreferenced hbarren
  · rename_i hreferenced
    exact hplain (by simpa using hreferenced)

omit [Coefficient K] [Scalar Q] [Precision K Q] in
/-- Nothing fixes a variable that is neither held nor folded in somewhere. -/
theorem fixedValue?_eq_none {y : Variable Q} (hy : s.tableau.vars.get? v = some y)
    (hheld : v ∉ s.holds.keys) (hidle : s.isIdle v) : s.fixedValue? v y = none := by
  rw [fixedValue?, Assoc.get?_eq_none_iff.mpr hheld, isIdle_iff.mp hidle y hy]
  rfl

/-- What **pinning** comes to: the variable is unknown; constraints took it in with another value,
or with this one; or it is pinned anew, or for the first time. -/
theorem pin_cases {p : Except Fault Unit × Solver K Q → Prop} {x : Q}
    (hunknown : s.tableau.vars.get? v = none → p (.error (.unknownVariable v), s))
    (hrefused : ∀ y fixed text f, s.tableau.vars.get? v = some y →
      s.fixedValue? v y = some fixed → x != fixed →
      p (.error (.infeasible text), { s with tableau := s.tableau.count f, status := .infeasible }))
    (hsame : ∀ y, s.tableau.vars.get? v = some y → v ∉ s.holds.keys → 0 < y.folds →
      x == y.computed → p (.ok (), s))
    (htake : ∀ y hold, s.tableau.vars.get? v = some y → s.holds.get? v = some hold →
      x == hold.value →
      p (.ok (), { s with holds := s.holds.erase v }.notePin v x (some hold.constraint)))
    (hrepin : ∀ y, s.tableau.vars.get? v = some y → v ∉ s.holds.keys → s.isIdle v →
      v ∈ s.pins.keys → p (s.repin v y.computed x))
    (hattach : ∀ y, s.tableau.vars.get? v = some y → ¬s.Noted v → s.isIdle v →
      p (s.attachPin v x)) : p (s.pin v x) := by
  rw [pin]
  cases hy : s.tableau.vars.get? v with
  | none => exact hunknown hy
  | some y =>
      dsimp only
      cases hfixed : s.fixedValue? v y with
      | some fixed =>
          dsimp only
          rw [pinFixed]
          split
          · rename_i hne
            exact hrefused y fixed _ _ hy hfixed hne
          · rename_i hx
            have hx : x == fixed := by simpa [bne] using hx
            rw [fixedValue?] at hfixed
            cases hhold : s.holds.get? v with
            | some hold =>
                rw [hhold] at hfixed
                exact htake y hold hy hhold (Option.some.inj hfixed ▸ hx)
            | none =>
                rw [hhold] at hfixed
                simp only at hfixed
                split at hfixed
                · rename_i hfolds
                  refine hsame y hy (Assoc.get?_eq_none_iff.mp hhold) hfolds ?_
                  exact Option.some.inj hfixed ▸ hx
                · exact absurd hfixed (by simp)
      | none =>
          dsimp only
          rw [fixedValue?] at hfixed
          cases hhold : s.holds.get? v with
          | some hold =>
              rw [hhold] at hfixed
              exact absurd hfixed (by simp)
          | none =>
              rw [hhold] at hfixed
              simp only at hfixed
              split at hfixed
              · exact absurd hfixed (by simp)
              · rename_i hfolds
                have hheld := Assoc.get?_eq_none_iff.mp hhold
                have hidle : s.isIdle v := isIdle_iff.mpr fun x hx => by
                  obtain rfl : y = x := Option.some.inj (hy.symm.trans hx)
                  exact Nat.eq_zero_of_not_pos hfolds
                split
                · rename_i hpinned
                  exact hrepin y hy hheld hidle (Assoc.contains_iff.mp hpinned)
                · rename_i hpinned
                  refine hattach y hy ?_ hidle
                  rintro (hpin | hheld')
                  · exact hpinned (Assoc.contains_iff.mpr hpin)
                  · exact hheld hheld'

namespace Annotated

variable {k : Command K Q} {u : Solver K Q}

/-- Taking out a constraint that is not hidden and has nothing folded in is a move, if the
constraint is there. -/
theorem path_withdraw (hid : s.tableau.Unwrapped → ¬s.IsHidden id ∧
      ∀ c, s.tableau.constraints.get? id = some c → c.tag.folded = []) :
    s.Path (k.Does u) { s with tableau := (s.tableau.remove id).2 } := by
  refine Tableau.remove_cases
    (p := fun result => s.Path (k.Does u) { s with tableau := result.2 }) (fun _ => .refl)
    fun c hc => ?_
  exact (Move.remove s.status hc).path (.inr hid)

/-- Holds are given up one after another, each with its constraint. -/
theorem path_releaseAll (h : s.Annotated) {holds : List (VarId × Hold Q)}
    (hnodup : (holds.map Prod.fst).Nodup)
    (hholds : ∀ e ∈ holds, s.holds.get? e.1 = some e.2 ∧ s.isIdle e.1) :
    s.Path (k.Does u) (s.releaseAll holds).2 := by
  induction holds generalizing s with
  | nil => exact .refl
  | cons e rest ih =>
      obtain ⟨hget, hidle⟩ := hholds e List.mem_cons_self
      obtain ⟨hfresh, hnodup⟩ := List.nodup_cons.mp hnodup
      have hdrop : s.Path (k.Does u) { s with holds := s.holds.erase e.1 } :=
        (Move.drop hidle).path trivial
      have hpath : s.Path (k.Does u)
          { s with
            tableau := (s.tableau.remove e.2.constraint).2
            holds := s.holds.erase e.1 } :=
        hdrop.trans (path_withdraw fun hroom => ⟨h.not_isHidden_drop hroom hget, fun c hc =>
          (h.plain hroom e.1 _ c (.inr ⟨_, hget, rfl⟩) hc).1⟩)
      rw [releaseAll]
      dsimp only
      split
      · exact hpath
      · refine hpath.trans (ih ?_ hnodup fun e' he' => ?_)
        · exact hpath.annotated h
        · obtain ⟨hget', hidle'⟩ := hholds e' (List.mem_cons_of_mem _ he')
          have hne : e'.1 ≠ e.1 := fun heq => hfresh (heq ▸ List.mem_map_of_mem he')
          refine ⟨?_, isIdle_remove h.wellFormed _ hidle'⟩
          rw [Assoc.get?_erase, if_neg hne, hget']

/-- Releasing the holds that are idle is a path. -/
theorem path_releaseIdle (h : s.Annotated) :
    s.Path (k.Does u) s.releaseIdle.2 := by
  refine h.path_releaseAll ?_ fun e he => ?_
  · exact (List.filter_sublist.map Prod.fst).nodup h.nodup_holds
  · obtain ⟨hmem, hidle⟩ := List.mem_filter.mp he
    exact ⟨(Assoc.get?_eq_some_iff h.nodup_holds).mpr hmem, hidle⟩

/-- Releasing the pin of a variable that is folded in nowhere is a path. -/
theorem path_releasePin (h : s.Annotated) (hidle : v ∈ s.pins.keys → s.isIdle v) :
    s.Path (k.Does u) (s.releasePin v).2 := by
  have hfree : s.Path (k.Does u)
      { s with tableau := s.tableau.modifyVar v Variable.unpin, pins := s.pins.erase v } :=
    (Move.free hidle).path trivial
  rw [releasePin]
  dsimp only
  split
  · exact hfree
  · rename_i id hid
    have hpin := Option.join_eq_some_iff.mp hid
    exact hfree.trans (path_withdraw fun hroom => ⟨h.not_isHidden_free hroom hpin _, fun c hc =>
      (h.plain hroom v id c (.inl hpin) hc).1⟩)

/-- Attaching a pin to a variable that is not noted is a path. -/
theorem path_attachPin (h : s.Annotated) (hv : s.tableau.Unwrapped → s.tableau.vars.isLive v)
    (hnoted : ¬s.Noted v) (hidle : s.isIdle v) (x : Q) (hcommand : ∃ x, k = .pin v x)
    (hnext : u.tableau.entered ≤ s.tableau.entered) :
    s.Path (k.Does u) (s.attachPin v x).2 := by
  refine h.attachPin_cases (p := fun result => s.Path (k.Does u) result.2) hnoted ?_ ?_ ?_
  · intro _
    exact (Move.note x hv hnoted hidle (by simp)).path ⟨hcommand, by simp⟩
  · intro c t' _ hrequest hc hfolded
    have hle : s.tableau.entered ≤ t'.entered := hc.entered_eq ▸ Nat.le_succ _
    have hroom : t'.Unwrapped → s.tableau.Unwrapped := fun hroom => hroom.of_le hle
    refine Path.step (a := .note v x (some s.tableau.nextConstraint))
      ((Move.enter .building hc).path (.inr ⟨v, x, hrequest⟩)) ⟨hcommand, ?_⟩
      (.note x (fun hlater => ?_) hnoted ?_ ?_)
    · rintro id hid hlater
      obtain rfl := Option.some.inj hid
      rwa [Tableau.nextConstraint_index (hroom hlater)]
    · obtain ⟨y, hy⟩ := VariablePool.isLive_iff.mp (hv (hroom hlater))
      obtain ⟨y', hy', -⟩ := hc.grown.old v y hy
      exact VariablePool.isLive_iff.mpr ⟨y', hy'⟩
    · refine isIdle_iff.mpr fun z hz => ?_
      rcases hc.grown.of_get? hz with ⟨-, hplain⟩ | ⟨y, hy, hcore⟩
      · exact hplain.folds_eq
      · have hfolds : z.folds = y.folds + c.tag.folded.count v := (congrArg Variable.folds hcore :)
        rw [hfolds, hfolded, isIdle_iff.mp hidle y hy]
        rfl
    · rintro id hid
      obtain rfl := Option.some.inj hid
      exact h.spare_of_entered hc hfolded hv .building
  · intro fault t' status _ hbarren
    exact Move.path (a := .other) (.quiet hbarren.quiet rfl rfl) trivial

/-- Where a variable could not be pinned nothing was entered, and its solver has the notes that it
had. -/
theorem attachPin_error (h : s.Annotated) (hnoted : ¬s.Noted v) {x : Q} {fault : Fault}
    (hfault : (s.attachPin v x).1 = .error fault) :
    s.tableau.Barren (s.attachPin v x).2.tableau ∧ (s.attachPin v x).2.pins = s.pins ∧
      (s.attachPin v x).2.holds = s.holds := by
  revert hfault
  refine h.attachPin_cases (p := fun result => result.1 = .error fault →
    s.tableau.Barren result.2.tableau ∧ result.2.pins = s.pins ∧ result.2.holds = s.holds)
    hnoted ?_ ?_ ?_
  · exact fun _ hok => absurd hok (by simp)
  · exact fun _ _ _ _ _ _ hok => absurd hok (by simp)
  · exact fun _ _ _ _ hbarren _ => ⟨hbarren, rfl, rfl⟩

/-- Pinning a pinned variable again is a path. -/
theorem path_repin (h : s.Annotated) (hv : s.tableau.vars.isLive v) (hheld : v ∉ s.holds.keys)
    (hidle : s.isIdle v) (previous x : Q) (hcommand : ∃ x, k = .pin v x)
    (hnext : u.tableau.entered ≤ s.tableau.entered) :
    s.Path (k.Does u) (s.repin v previous x).2 := by
  have hrelease := h.path_releasePin (k := k) (u := u) (v := v) fun _ => hidle
  obtain ⟨-, -, hlive, hstill⟩ := h.releasePin_notes hv
  have hnoted := h.not_noted_releasePin hv hheld
  have hidle := hstill hidle
  have h₁ := hrelease.annotated h
  have hnext₁ := hnext.trans (hrelease.entered_le h)
  rw [repin]
  generalize s.releasePin v = result at *
  obtain ⟨outcome, s₁⟩ := result
  dsimp only at *
  split
  · rename_i heq
    obtain ⟨-, rfl⟩ := Prod.mk.inj heq
    exact hrelease
  · rename_i heq
    obtain ⟨-, rfl⟩ := Prod.mk.inj heq
    have hattach := h₁.path_attachPin hlive hnoted hidle x hcommand hnext₁
    have herror := fun fault (hf : (s₁.attachPin v x).1 = .error fault) =>
      h₁.attachPin_error hnoted hf
    have h₂ := hattach.annotated h₁
    have hnext₂ := hnext₁.trans (hattach.entered_le h₁)
    generalize s₁.attachPin v x = result at *
    obtain ⟨outcome, s₂⟩ := result
    dsimp only at *
    split
    · rename_i heq
      obtain ⟨-, rfl⟩ := Prod.mk.inj heq
      exact hrelease.trans hattach
    · rename_i heq
      obtain ⟨rfl, rfl⟩ := Prod.mk.inj heq
      obtain ⟨hbarren, hpins₂, hholds₂⟩ := herror _ rfl
      have hlive₂ : s₂.tableau.Unwrapped → s₂.tableau.vars.isLive v := by
        intro hroom
        obtain ⟨y, hy⟩ := VariablePool.isLive_iff.mp
          (hlive (hroom.of_le (Nat.le_of_eq hbarren.entered_eq.symm)))
        obtain ⟨y', hy', -⟩ := hbarren.grown.old v y hy
        exact VariablePool.isLive_iff.mpr ⟨y', hy'⟩
      have hidle₂ : s₂.isIdle v := by
        refine isIdle_iff.mpr fun z hz => ?_
        rcases hbarren.grown.of_get? hz with ⟨-, hplain⟩ | ⟨y, hy, hcore⟩
        · exact hplain.folds_eq
        · exact (congrArg Variable.folds hcore :).trans (isIdle_iff.mp hidle y hy)
      have hback := h₂.path_attachPin hlive₂ (by rwa [Noted, hpins₂, hholds₂]) hidle₂ previous
        hcommand hnext₂
      have hall := (hrelease.trans hattach).trans hback
      split
      · rename_i heq
        rwa [heq] at hall
      · rename_i heq
        rw [heq] at hall
        have h₃ := hall.annotated h
        exact .step (a := .other) hall trivial
          (.quiet h₃.wellFormed.quiet_refl rfl rfl)

/-- Pinning is a path. -/
theorem path_pin (h : s.Annotated) (v : VarId) (x : Q) :
    s.Path (Command.Does (.pin v x) s) (s.pin v x).2 := by
  refine pin_cases (p := fun result => s.Path (Command.Does (.pin v x) s) result.2)
    ?_ ?_ ?_ ?_ ?_ ?_
  · exact fun _ => .refl
  · intro y fixed text f _ _ _
    exact Move.path (a := .other) (.quiet (h.wellFormed.quiet_count f) rfl rfl) trivial
  · exact fun _ _ _ _ _ => .refl
  · intro y hold hy hhold hx
    exact (Move.take x (VariablePool.isLive_iff.mpr ⟨y, hy⟩) hhold hx).path trivial
  · intro y hy hheld hidle _
    exact h.path_repin (VariablePool.isLive_iff.mpr ⟨y, hy⟩) hheld hidle _ x ⟨x, rfl⟩
      (Nat.le_refl _)
  · intro y hy hnoted hidle
    exact h.path_attachPin (fun _ => VariablePool.isLive_iff.mpr ⟨y, hy⟩) hnoted hidle x ⟨x, rfl⟩
      (Nat.le_refl _)

/-- A variable that constraints took in becomes held. Where its new constraint is refused it is
flagged again. -/
theorem path_hold (h : s.Annotated) {y : Variable Q} {hidden : Option ConstraintId}
    (hpin : s.pins.get? v = some hidden) (hy : s.tableau.vars.get? v = some y)
    (hfolds : 0 < y.folds) :
    s.Path (k.Does u) (s.hold v y.computed hidden).2 := by
  cases hidden with
  | some id => exact (Move.keep hpin hy hfolds).path trivial
  | none =>
      have hfree := (h.unflag v).wellFormed
      rw [hold]
      rcases hfree.insert_or (pinRequest v y.computed) .eq with ⟨c, hok, hrequest, -, hc⟩ |
        ⟨fault, herror, hbarren⟩
      · rw [← Prod.mk.eta (p := (s.tableau.modifyVar v Variable.unpin).insert
          (pinRequest v y.computed) .eq), hok]
        exact (Move.enterHold hpin hy hfolds hc hrequest).path (.inr ⟨v, _, hrequest⟩)
      · rw [← Prod.mk.eta (p := (s.tableau.modifyVar v Variable.unpin).insert
          (pinRequest v y.computed) .eq), herror]
        have hflag : s.Path (k.Does u)
            { s with tableau := s.tableau.modifyVar v (·.pin y.computed) } :=
          Move.path (a := .other) (.flag (Assoc.mem_keys_of_get? hpin) hy) trivial
        exact .step (a := .other) hflag trivial (.quiet (hbarren.quiet_flag hy) rfl rfl)

/-- Unpinning is a path. -/
theorem path_unpin (h : s.Annotated) (v : VarId) :
    s.Path (k.Does u) (s.unpin v).2 := by
  have hquiet : s.Path (k.Does u) { s with status := .building } :=
    Move.path (a := .other) (.quiet h.wellFormed.quiet_refl rfl rfl) trivial
  have hbuilding : ({ s with status := .building } : Solver K Q).Annotated :=
    h.quiet h.wellFormed.quiet_refl rfl rfl
  rw [unpin]
  cases hy : s.tableau.vars.get? v with
  | none => exact .refl
  | some y =>
      dsimp only
      cases hpin : s.pins.get? v with
      | none =>
          refine hquiet.trans (hbuilding.path_releasePin fun hv => absurd hv ?_)
          exact Assoc.get?_eq_none_iff.mp hpin
      | some hidden =>
          dsimp only
          split
          · rename_i hfolds
            exact hquiet.trans (hbuilding.path_hold hpin hy hfolds)
          · rename_i hfolds
            refine hquiet.trans (hbuilding.path_releasePin fun _ => isIdle_iff.mpr fun z hz => ?_)
            obtain rfl : y = z := Option.some.inj (hy.symm.trans hz)
            exact Nat.eq_zero_of_not_pos hfolds

/-- An insertion is a path. -/
theorem path_add (h : s.Annotated) (request : Request K) (relation : Relation)
    (hrequest : k.Does u s (.enter request)) :
    s.Path (k.Does u) (s.add request relation).2 := by
  rw [add]
  rcases h.wellFormed.insert_or request relation with ⟨c, hok, hc, -, hentered⟩ |
    ⟨fault, herror, hbarren⟩
  · rw [← Prod.mk.eta (p := s.tableau.insert request relation), hok]
    exact (Move.enter .building hentered).path (hc ▸ hrequest)
  · rw [← Prod.mk.eta (p := s.tableau.insert request relation), herror]
    exact Move.path (a := .other) (.quiet hbarren.quiet rfl rfl) trivial

/-- A removal is a path. -/
theorem path_remove (h : s.Annotated) (id : ConstraintId) :
    s.Path (Command.Does (.remove id) s) (s.remove id).2 := by
  rw [remove]
  cases hc : s.tableau.constraints.get? id with
  | none =>
      rw [Tableau.remove, hc]
      exact .refl
  | some c =>
      rw [Tableau.remove, hc]
      have hmove : s.Move (.remove id)
          { s with tableau := s.tableau.withdraw id c.tag, status := .building } := .remove _ hc
      exact (hmove.path (.inl ⟨rfl, rfl⟩)).trans (h.move hmove).path_releaseIdle

/-- An optimisation is a path. -/
theorem path_optimize (h : s.Annotated) : s.Path (k.Does u) s.optimize.2 := by
  have hcount := h.wellFormed.quiet_count fun c => { c with optimize := c.optimize + 1 }
  have hminimise := hcount.wellFormed.quiet_minimise .goal
  obtain ⟨hpath, hpins, hholds⟩ := s.tableau_optimize
    (p := fun t => s.Path (k.Does u) { s with tableau := t })
    (.step (a := .other) ((Move.of_quiet hcount).path trivial) trivial (.of_quiet hminimise))
    fun t ht => .step (a := .other) ht trivial (.of_quiet (ht.annotated h).wellFormed.quiet_settle)
  exact hpath.step (a := .other) trivial
    (.quiet (hpath.annotated h).wellFormed.quiet_refl hpins hholds)

/-- **The moves of a command.** A command makes a new variable, or empties the solver, or works by
moves. -/
theorem path_perform {p : Solver K Q → Prop} (h : s.Annotated) (command : Command K Q)
    (hdeclare : ∀ kind stem, command = .declare kind stem → p (s.declare kind stem).2)
    (hreset : command = .reset → p s.reset)
    (hpath : s.Path (command.Does s) (s.perform command).2 → p (s.perform command).2) :
    p (s.perform command).2 := by
  cases command with
  | declare kind stem => exact hdeclare kind stem rfl
  | reset => exact hreset rfl
  | add request relation => exact hpath (h.path_add request relation (.inl ⟨relation, rfl⟩))
  | arrange layout strength => exact hpath (h.path_add _ _ (.inl ⟨_, rfl⟩))
  | remove id => exact hpath (h.path_remove id)
  | pin v x => exact hpath (h.path_pin v x)
  | unpin v => exact hpath (h.path_unpin v)
  | optimize => exact hpath h.path_optimize
  | resetCounters =>
      have hwell : ({ s.tableau with counters := {} } : Tableau K Q).WellFormed :=
        h.wellFormed.of_links rfl rfl rfl rfl rfl (fun _ => rfl) (Nat.le_refl _)
      have hquiet : s.tableau.Quiet { s.tableau with counters := {} } :=
        Tableau.SameVars.quiet (.of_eq rfl) hwell rfl rfl
      exact hpath (Move.path (.of_quiet hquiet) trivial)

end Annotated

/-! ### Reachable solvers -/

/-- **The notes fit the tableau** in every reachable solver. -/
theorem Reachable.annotated (h : s.Reachable) : s.Annotated := by
  refine h.induction (fun settings => ?_) fun s command hs => ?_
  · exact annotated_of_nothing (wellFormed_empty settings) rfl (fun _ => rfl) rfl rfl
  · exact hs.path_perform command (fun kind stem _ => hs.declare kind stem)
      (fun _ => annotated_reset s)
      fun hpath => hpath.annotated hs

end Solver

end LexSimplex
