import Mathlib.Algebra.Ring.Int.Defs
import Mathlib.Tactic.Zify
import LexSimplex.Proofs.Refusals

/-!
# The tally of rows and constraints

Every constraint has one row, and the row goes with it: that is the plan, and the **tally** of a
tableau says how far it is from it. Only insertions and removals can change the tally, and by how
much each of them does is its **drift**. So the tally of a tableau is the sum of the drifts in its
history.

Four things make an edit drift. An artificial variable that reached zero may be stuck in its row,
which is then lost. Where a trial fails, the variables that are discarded may define no row or more
than one. Where a constraint is removed its marker may have become invisible, as its coefficient was
scaled down to something negligible; then its row stays. And once handles have come round a new
constraint may overwrite one that is still there, whose row then stays without it. The first three
take an arithmetic that rounds or neglects, or a caller who names variables of the solver's own:
with rational numbers a session that keeps to its own variables has no drift while handles have not
come round, as `Session.Run.length_rows` says.

## Main definitions

* `Edit`, `Tableau.edit`: an insertion or a removal.
* `Tableau.tally`, `Tableau.drift`: by how much rows outnumber constraints, and what an edit adds.
* `Tableau.History`: the edits since a tableau was last empty.

## Main results

* `Tableau.Listed.tally_edit`: an edit changes the tally by its drift.
* `Tableau.History.tally_eq`: the tally of a tableau is the drift in its history.
* `Solver.Reachable.length_rows_eq`: a reachable solver has as many rows as constraints, but for the
  drift in its history.
-/

namespace LexSimplex

variable {K Q : Type}

/-- A change of the constraints of a tableau. -/
inductive Edit (K : Type) where
  | insert (request : Request K) (relation : Relation)
  | remove (id : ConstraintId)

/-- In an arithmetic that **keeps units**, neither one nor minus one is negligible. -/
class Coefficient.KeepsUnits (K : Type) [Coefficient K] : Prop where
  one : ¬Coefficient.negligible (1 : K)
  neg_one : ¬Coefficient.negligible (-1 : K)

instance : Coefficient.KeepsUnits Rat :=
  ⟨by decide, by decide⟩

instance : Coefficient.KeepsUnits Float :=
  ⟨by decide +kernel, by decide +kernel⟩

namespace Assoc

variable {κ β : Type} [DecidableEq κ] {m : Assoc κ β} {k : κ}

/-- An insertion adds an entry, unless it overwrites one. -/
theorem length_insert (m : Assoc κ β) (k : κ) (b : β) :
    (m.insert k b).length + (if m.contains k then 1 else 0) = m.length + 1 := by
  by_cases h : m.contains k
  · rw [insert, if_pos h, if_pos h, set, List.length_map]
  · rw [insert, if_neg h, if_neg h, List.length_append, List.length_singleton]

/-- A new entry makes a map longer by one. -/
theorem length_insert_of_get?_eq_none (h : m.get? k = none) (b : β) :
    (m.insert k b).length = m.length + 1 := by
  have hlength := m.length_insert k b
  rwa [if_neg (by simp [contains, h])] at hlength

/-- Erasing an entry makes a map shorter by one. -/
theorem length_erase_of_mem (hm : m.keys.Nodup) (h : k ∈ m.keys) :
    (m.erase k).length + 1 = m.length := by
  have hkeys : (m.erase k).keys = m.keys.erase k := by
    rw [keys_erase, hm.erase_eq_filter]
  have hlength := congrArg List.length hkeys
  have hpos := List.length_pos_of_mem h
  rw [List.length_erase_of_mem h] at hlength
  simp only [keys, List.length_map] at hlength hpos
  omega

end Assoc

namespace Tableau

variable {t t' : Tableau K Q}

/-- By how much the rows of a tableau outnumber its constraints. -/
def tally (t : Tableau K Q) : Int :=
  t.rows.length - t.constraints.length

/-- The tally depends on the number of rows and the constraints. -/
theorem tally_congr (hrows : t'.rows.length = t.rows.length)
    (hcons : t'.constraints = t.constraints) : t'.tally = t.tally := by
  rw [tally, tally, hrows, hcons]

variable [Coefficient K]

/-- A well-formed tableau **lists** its constraints, each once. -/
structure Listed (t : Tableau K Q) : Prop where
  wellFormed : t.WellFormed
  nodup : t.constraints.keys.Nodup

/-- With as many rows and the same constraints, a well-formed tableau has the same tally. -/
theorem Listed.of_constraints_eq (h : t.Listed) (hwell : t'.WellFormed)
    (hrows : t'.rows.length = t.rows.length) (hcons : t'.constraints = t.constraints) :
    t'.Listed ∧ t'.tally = t.tally :=
  ⟨⟨hwell, hcons ▸ h.nodup⟩, tally_congr hrows hcons⟩

variable [Scalar Q] [Precision K Q]

/-- A tableau after an edit. -/
def edit (t : Tableau K Q) : Edit K → Tableau K Q
  | .insert request relation => (t.insert request relation).2
  | .remove id => (t.remove id).2

/-- The **drift** of an edit: by how much it changes the tally. An insertion that is accepted adds
no constraint if it overwrites one, and it loses its row if it was tried and its artificial variable
is stuck there. One that was tried and fails leaves the new row behind unless one row goes with what
is discarded. A removal should take one row along. -/
def drift (t : Tableau K Q) : Edit K → Int
  | .insert request relation =>
    let d := t.draft request relation
    match (t.insert request relation).1 with
    | .ok id =>
      (if t.constraints.contains id then 1 else 0) -
        if d.2.Tried d.1 ∧
            (t.tried request relation).Stuck d.2.artificial d.1.constraint.tag.marker then 1 else 0
    | .error (.unknownVariable _) => 0
    | .error fault =>
      if d.2.Tried d.1 then
        1 - (t.tried request relation).basicCount (t.shed request relation fault)
      else 0
  | .remove id =>
    match t.constraints.get? id with
    | none => 0
    | some c => 1 - t.uprooted id c.tag

/-! ### What an edit does to the tally -/

section Edits

variable {request : Request K} {relation : Relation} {id : ConstraintId}

/-- An insertion that fails leaves as many rows as there were, but for its drift. -/
theorem Linked.length_rows_insert_error (h : t.Linked none) {fault : Fault}
    (hfault : (t.insert request relation).1 = .error fault) :
    ((t.insert request relation).2.rows.length : Int) =
      t.rows.length + t.drift (.insert request relation) := by
  have hf := h.failed hfault
  rw [drift, hfault]
  generalize (t.insert request relation).2 = left at hf ⊢
  by_cases htried : (t.draft request relation).2.Tried (t.draft request relation).1
  · have hlength := fun hw => (h.failed_of_tried hf hw htried).2.2
    cases hf with
    | unknown v => exact (Int.add_zero _).symm
    | refused _ hnot _ => exact absurd htried hnot
    | tried hw _ _ =>
        have hlength := hlength hw
        cases fault with
        | unknownVariable v => exact absurd hw (by simp [Fault.isInfeasible, Fault.isInternal])
        | _ =>
            dsimp only
            rw [if_pos htried]
            omega
  · have hlength := fun hw => (h.refused_of_not_tried hf hw htried).2.2
    cases hf with
    | unknown v => exact (Int.add_zero _).symm
    | refused hw _ _ =>
        rw [hlength hw]
        cases fault <;> simp [htried]
    | tried _ hw _ => exact absurd hw htried

/-- An edit keeps a tableau well-formed, and its constraints listed once. -/
theorem Listed.edit (h : t.Listed) (e : Edit K) : (t.edit e).Listed := by
  obtain ⟨hwell, hnodup⟩ := h
  cases e with
  | insert request relation =>
      refine ⟨(hwell.insert request relation).1, ?_⟩
      obtain ⟨haccepted, hrefused⟩ := hwell.linked.constraints_insert request relation
      rw [Tableau.edit]
      cases hresult : (t.insert request relation).1 with
      | ok id =>
          rw [(haccepted id hresult).2.2]
          exact Assoc.nodup_keys_insert hnodup _ _
      | error fault => rwa [hrefused fault hresult]
  | remove id =>
      refine ⟨hwell.remove id, ?_⟩
      refine remove_cases (p := fun result => result.2.constraints.keys.Nodup) (fun _ => hnodup) ?_
      intro c _
      rw [constraints_withdraw]
      exact Assoc.nodup_keys_erase hnodup id

variable [Coefficient.KeepsUnits K]

/-- An insertion that is accepted adds a row, unless its artificial variable is stuck there. -/
theorem Linked.length_rows_insert_ok (h : t.Linked none)
    (hok : (t.insert request relation).1 = .ok id) :
    (t.insert request relation).2.rows.length +
        (if (t.draft request relation).2.Tried (t.draft request relation).1 ∧
          (t.tried request relation).Stuck (t.draft request relation).2.artificial
            (t.draft request relation).1.constraint.tag.marker then 1 else 0) =
      t.rows.length + 1 := by
  have hdrafted := h.draft request relation
  obtain ⟨hlinked, -, hlength⟩ := (hdrafted.placeable h).trial
  have hmarker := h.marker_mem_draft Coefficient.KeepsUnits.one Coefficient.KeepsUnits.neg_one
    request relation
  rw [hdrafted.joined.rows] at hlength
  set d := (t.draft request relation).1 with hd
  set u := (t.draft request relation).2 with hu
  obtain ⟨hplace, hrows⟩ : (u.place d).1 = .ok true ∧
      (t.insert request relation).2.rows = (u.place d).2.rows := by
    revert hok
    refine insert_cases (p := fun result => result.1 = .ok id →
      (u.place d).1 = .ok true ∧ result.2.rows = (u.place d).2.rows) ?_ ?_ ?_ ?_
    · exact fun _ _ _ hok => absurd hok (by simp)
    · exact fun _ _ _ hok => absurd hok (by simp)
    · exact fun _ hplace _ => ⟨hplace, rows_register _ _⟩
    · exact fun _ _ _ _ hok => absurd hok (by simp)
  rw [hrows]
  by_cases htried : u.Tried d
  · obtain ⟨hresult, halike⟩ := place_of_tried htried
    have hreached : reached (u.trial d) = true := by
      rw [hresult] at hplace
      cases htrial : (u.trial d).1 with
      | error fault =>
          rw [htrial] at hplace
          exact absurd hplace (by simp [Except.map])
      | ok _ =>
          rw [htrial] at hplace
          exact Except.ok.inj hplace
    have hsettled := hlinked.length_rows_settled_true d u.artificial
    rw [hreached] at halike
    rw [halike.rows, ← hlength, ← hsettled]
    simp only [htried, true_and]
    rfl
  · rcases place_of_not_tried htried with ⟨-, hadded⟩ | hrefused
    · rw [if_neg fun hw => htried hw.1, hadded hmarker, hdrafted.joined.rows]
    · rw [hrefused] at hplace
      exact absurd hplace (by simp)

/-- **An edit changes the tally by its drift.** -/
theorem Listed.tally_edit (h : t.Listed) (e : Edit K) :
    (t.edit e).tally = t.tally + t.drift e := by
  have hlinked := h.wellFormed.linked
  cases e with
  | insert request relation =>
      obtain ⟨haccepted, hrefused⟩ := hlinked.constraints_insert request relation
      rw [Tableau.edit, tally, tally]
      cases hresult : (t.insert request relation).1 with
      | ok id =>
          obtain ⟨-, -, hcons⟩ := haccepted id hresult
          have hrows := hlinked.length_rows_insert_ok hresult
          have hlength := t.constraints.length_insert id
            (t.draft request relation).1.constraint
          rw [drift, hresult, hcons]
          dsimp only
          zify at hrows hlength
          omega
      | error fault =>
          rw [hrefused fault hresult, hlinked.length_rows_insert_error hresult]
          omega
  | remove id =>
      rw [Tableau.edit, drift]
      refine remove_cases (p := fun result => result.2.tally = _) ?_ ?_
      · intro hnone
        rw [hnone, Int.add_zero]
      · intro c hc
        have hrows := hlinked.length_rows_withdraw id (h.wellFormed.owned.nodup id c hc)
        have hmem : id ∈ t.constraints.keys :=
          Assoc.contains_iff.mp (Option.isSome_iff_exists.mpr ⟨c, hc⟩)
        have hcount := Assoc.length_erase_of_mem h.nodup hmem
        rw [hc, tally, tally, constraints_withdraw]
        dsimp only
        omega

end Edits

/-! ### Histories -/

/-- The **history** of a tableau: the edits since it was last empty, the latest first, each with the
tableau in which it was made. Variables come in between, the goal is minimised, values are settled,
and flags and counters are set. -/
inductive History : List (Tableau K Q × Edit K) → Tableau K Q → Prop
  | empty (settings : Settings) : History [] (Tableau.empty settings)
  | reset {es t} (h : History es t) : History [] t.reset
  | edit {es t} (h : History es t) (e : Edit K) : History ((t, e) :: es) (t.edit e)
  | declare {es t} (h : History es t) (kind : Kind) (stem : Option String) :
    History es (t.addVariable kind stem).2
  | minimise {es t} (h : History es t) : History es (t.minimise .goal).2
  | settle {es t} (h : History es t) : History es t.settle
  | pin {es t} (h : History es t) (v : VarId) (x : Q) : History es (t.modifyVar v (·.pin x))
  | unpin {es t} (h : History es t) (v : VarId) : History es (t.modifyVar v Variable.unpin)
  | count {es t} (h : History es t) (f : Counters → Counters) : History es (t.count f)
  | resetCounters {es t} (h : History es t) : History es { t with counters := {} }

/-- The drift of the edits in a history. -/
def totalDrift (es : List (Tableau K Q × Edit K)) : Int :=
  (es.map fun x => x.1.drift x.2).sum

variable [Coefficient.KeepsUnits K]

/-- **Only edits change the tally.** -/
theorem History.tally_eq {es : List (Tableau K Q × Edit K)} (h : History es t) :
    t.Listed ∧ t.tally = totalDrift es := by
  induction h with
  | empty settings =>
      exact ⟨⟨.of_nothing rfl rfl rfl (fun _ => rfl) fun _ => rfl, List.nodup_nil⟩, rfl⟩
  | @reset es t h ih =>
      exact ⟨⟨.of_nothing rfl rfl rfl (VariablePool.get?_reset t.vars)
        (Pool.get?_reset t.rowSlots), List.nodup_nil⟩, rfl⟩
  | edit h e ih =>
      obtain ⟨hlisted, htally⟩ := ih
      refine ⟨hlisted.edit e, ?_⟩
      rw [hlisted.tally_edit, htally, totalDrift, totalDrift, List.map_cons, List.sum_cons]
      exact Int.add_comm _ _
  | @declare es t h kind stem ih =>
      obtain ⟨hlisted, htally⟩ := ih
      exact htally ▸ hlisted.of_constraints_eq (hlisted.wellFormed.addVariable kind stem)
        (congrArg List.length (rows_addVariable t kind stem)) (constraints_addVariable t kind stem)
  | @minimise es t h ih =>
      obtain ⟨hlisted, htally⟩ := ih
      exact htally ▸ hlisted.of_constraints_eq (hlisted.wellFormed.minimise .goal)
        (hlisted.wellFormed.linked.length_rows_minimise .goal) (constraints_minimise .goal t)
  | settle h ih =>
      obtain ⟨hlisted, htally⟩ := ih
      exact htally ▸ hlisted.of_constraints_eq hlisted.wellFormed.settle rfl rfl
  | pin h v x ih =>
      obtain ⟨hlisted, htally⟩ := ih
      exact htally ▸ hlisted.of_constraints_eq
        (hlisted.wellFormed.modifyVar v (f := fun y => y.pin x) fun _ => rfl) rfl rfl
  | unpin h v ih =>
      obtain ⟨hlisted, htally⟩ := ih
      exact htally ▸ hlisted.of_constraints_eq
        (hlisted.wellFormed.modifyVar v (f := Variable.unpin) fun _ => rfl) rfl rfl
  | @count es t h f ih =>
      obtain ⟨hlisted, htally⟩ := ih
      exact htally ▸ hlisted.of_constraints_eq (hlisted.wellFormed.count f)
        (congrArg List.length (rows_count t f)) (constraints_count t f)
  | resetCounters h ih =>
      obtain ⟨hlisted, htally⟩ := ih
      exact htally ▸ hlisted.of_constraints_eq
        (hlisted.wellFormed.of_links rfl rfl rfl rfl rfl (fun _ => rfl) (Nat.le_refl _)) rfl rfl

end Tableau

namespace Solver

variable [Coefficient K] [Scalar Q] [Precision K Q] {s : Solver K Q}

/-- The tableau of every reachable solver has a history. -/
theorem Reachable.exists_history (h : s.Reachable) : ∃ es, Tableau.History es s.tableau := by
  refine h.of_closed (p := fun t => ∃ es, Tableau.History es t) ?_ ?_ ?_ ?_ ?_ ?_ ?_
  · refine ⟨?_, ?_, ?_, ?_, ?_⟩
    · exact fun _ request relation _ ⟨_, h⟩ => ⟨_, h.edit (.insert request relation)⟩
    · exact fun _ id ⟨_, h⟩ => ⟨_, h.edit (.remove id)⟩
    · exact fun _ v x ⟨_, h⟩ => ⟨_, h.pin v x⟩
    · exact fun _ v ⟨_, h⟩ => ⟨_, h.unpin v⟩
    · exact fun _ f ⟨_, h⟩ => ⟨_, h.count f⟩
  · exact fun settings => ⟨_, .empty settings⟩
  · exact fun _ kind stem ⟨_, h⟩ => ⟨_, h.declare kind stem⟩
  · exact fun _ ⟨_, h⟩ => ⟨_, h.minimise⟩
  · exact fun _ ⟨_, h⟩ => ⟨_, h.settle⟩
  · exact fun _ ⟨_, h⟩ => ⟨_, h.reset⟩
  · exact fun _ ⟨_, h⟩ => ⟨_, h.resetCounters⟩

/-- **Rows and constraints.** Every reachable tableau has a history, and by whatever history it came
about, its rows outnumber its constraints by the drift of the edits in it. Any further edit adds
its own drift. So there is one row for each constraint exactly as long as the drifts cancel, and a
solver whose constraints are all removed has as many rows left as edits have drifted. -/
theorem Reachable.length_rows_eq [Coefficient.KeepsUnits K] (h : s.Reachable) :
    (∃ es, Tableau.History es s.tableau) ∧
      (∀ es, Tableau.History es s.tableau → (s.tableau.rows.length : Int) =
        s.tableau.constraints.length + Tableau.totalDrift es) ∧
      ∀ e, ((s.tableau.edit e).rows.length : Int) - (s.tableau.edit e).constraints.length =
        s.tableau.rows.length - s.tableau.constraints.length + s.tableau.drift e := by
  obtain ⟨es, hes⟩ := h.exists_history
  refine ⟨⟨es, hes⟩, fun es hes => ?_, hes.tally_eq.1.tally_edit⟩
  have htally := hes.tally_eq.2
  rw [Tableau.tally] at htally
  omega

/-- A solver in which a variable was told by a large coefficient not to be negative, and no longer
is. -/
def steep : Solver Float Float32 :=
  (empty {}).run [.declare .external "x",
    .add (Request.empty.addTerm ⟨0⟩ (1000000000 : Float32)) .ge, .remove ⟨0⟩]

/-- There is no constraint left, but a row: the coefficient of the marker had become negligible, so
that the removal drifted. -/
theorem length_rows_eq_of_steep :
    steep.tableau.constraints.length = 0 ∧ steep.tableau.rows.length = 1 ∧
      ∃ es, Tableau.History es steep.tableau ∧ Tableau.totalDrift es = 1 := by
  have hcons : steep.tableau.constraints.length = 0 := by decide +kernel
  have hrows : steep.tableau.rows.length = 1 := by decide +kernel
  obtain ⟨⟨es, hes⟩, htally, -⟩ := Reachable.length_rows_eq (s := steep) ⟨_, _, rfl⟩
  have hdrift := htally es hes
  exact ⟨hcons, hrows, es, hes, by omega⟩

/-- Rounding can bring a trial that has reached zero to be taken for a failure. What is discarded
then defines no row, and the new one is left behind. -/
example :
    let s : Solver Float Float32 := (empty {}).run [.declare .external "x",
      .add (((Request.empty.addTerm ⟨0⟩ (3 : Float32)).addConstant
        (300000000 : Float32)).setStrength .high) .ge]
    let request : Request Float := ((((Request.empty : Request Float).addTerm ⟨0⟩
      (-30000000 : Float32)).addTerm ⟨0⟩ (-1000000 : Float32)).addTerm ⟨0⟩
        (-1000 : Float32)).addConstant (-300000000 : Float32)
    s.tableau.drift (.insert request .eq) = 1 := by
  decide +kernel

end Solver

end LexSimplex
