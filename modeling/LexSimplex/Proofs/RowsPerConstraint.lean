import Mathlib.LinearAlgebra.Dimension.Constructions
import LexSimplex.Proofs.Meaning
import LexSimplex.Proofs.RowTally

/-!
# One row for each constraint

In exact arithmetic an authored tableau has as many rows as constraints, as long as handles have not
come round. Its rows and the equations of its constraints have the same solutions. The rows give the
basic variables by the others, and the equations of the constraints give their markers by the
others, as no marker is in the equation of another constraint. And however the variables of a linear
system are divided into free ones and ones that these determine, there are equally many of each.

The tally of rows and constraints says of any arithmetic by how much the two are apart. This module
says when they are not: the drifts of a session that keeps to its own variables cancel, so there its
failed insertions leave no row behind, and what they change is told by their trials alone.

## Main definitions

* `SolvedBy`: some variables are determined by the others.

## Main results

* `Linear.card_eq`: a linear system determines equally many variables, however it is solved.
* `Tableau.Authored.length_rows`: an authored tableau has as many rows as constraints.
* `Session.Run.length_rows`: so has every session that keeps to its own variables.
* `Session.Run.leakless`, `Session.Run.unchanged_iff_traceless`: what a failed insertion leaves
  there.
-/

namespace LexSimplex

open Function (update update_self update_of_ne)

/-- Assignments with a property are **solved by** some variables if any values of the others extend
to exactly one of them. -/
def SolvedBy (p : Assignment → Prop) (vs : Finset VarId) : Prop :=
  ∀ b : Assignment, ∃! a, p a ∧ ∀ v ∉ vs, a v = b v

/-- A property is **linear** if it is kept by adding a multiple of the difference between
assignments that have it. -/
def Linear (p : Assignment → Prop) : Prop :=
  ∀ a b c, p a → p b → p c → ∀ q : Rat, p (a + q • (b - c))

namespace Linear

variable {p : Assignment → Prop} {vs ws : Finset VarId}

/-- The **directions** in which one may go from assignments with a linear property, if variables
outside of `vs` and `ws` keep their values. -/
def directions (h : Linear p) (vs ws : Finset VarId) : Submodule Rat Assignment where
  carrier := {d | (∀ a, p a → p (a + d)) ∧ ∀ v ∉ vs, v ∉ ws → d v = 0}
  add_mem' := by
    rintro d e ⟨hd, hd'⟩ ⟨he, he'⟩
    refine ⟨fun a ha => ?_, fun v hv hw => ?_⟩
    · rw [← add_assoc]
      exact he _ (hd a ha)
    · rw [Pi.add_apply, hd' v hv hw, he' v hv hw, add_zero]
  zero_mem' := ⟨fun a ha => by rwa [add_zero], fun _ _ _ => rfl⟩
  smul_mem' := by
    rintro q d ⟨hd, hd'⟩
    refine ⟨fun a ha => ?_, fun v hv hw => ?_⟩
    · have hmoved := h a (a + d) a ha (hd a ha) ha q
      rwa [add_sub_cancel_left] at hmoved
    · rw [Pi.smul_apply, hd' v hv hw, smul_zero]

/-- If assignments are solved by `vs`, a direction is given by its values at the further `ws`. -/
theorem finrank_directions (h : Linear p) (hvs : SolvedBy p vs) :
    Module.finrank Rat (h.directions vs ws) = (ws \ vs).card := by
  let values : h.directions vs ws →ₗ[Rat] (↥(ws \ vs) → Rat) :=
    { toFun := fun d v => d.1 v.1
      map_add' := fun _ _ => rfl
      map_smul' := fun _ _ => rfl }
  obtain ⟨a, ⟨ha, -⟩, -⟩ := hvs 0
  have hinjective : Function.Injective values := by
    intro d e hde
    obtain ⟨c, -, hunique⟩ := hvs (a + d.1)
    have hd := hunique (a + d.1) ⟨d.2.1 a ha, fun _ _ => rfl⟩
    have he := hunique (a + e.1) ⟨e.2.1 a ha, fun v hv => ?_⟩
    · exact Subtype.ext (add_left_cancel (hd.trans he.symm))
    · rw [Pi.add_apply, Pi.add_apply, add_right_inj]
      by_cases hw : v ∈ ws
      · exact (congrFun hde ⟨v, Finset.mem_sdiff.mpr ⟨hw, hv⟩⟩).symm
      · rw [d.2.2 v hv hw, e.2.2 v hv hw]
  have hsurjective : Function.Surjective values := by
    intro f
    obtain ⟨c, ⟨hc, hvalue⟩, -⟩ := hvs fun v =>
      a v + if hv : v ∈ ws \ vs then f ⟨v, hv⟩ else 0
    refine ⟨⟨c - a, fun b hb => ?_, fun v hv hw => ?_⟩, funext fun v => ?_⟩
    · have hmoved := h b c a hb hc ha 1
      rwa [one_smul] at hmoved
    · rw [Pi.sub_apply, hvalue v hv, dif_neg fun hmem => hw (Finset.mem_sdiff.mp hmem).1, add_zero,
        sub_self]
    · have hmoved : c v.1 - a v.1 = f v := by
        rw [hvalue v.1 (Finset.mem_sdiff.mp v.2).2, dif_pos v.2, add_sub_cancel_left]
      exact hmoved
  have hrank := (LinearEquiv.ofBijective values ⟨hinjective, hsurjective⟩).finrank_eq
  rwa [Module.finrank_fintype_fun_eq_card, Fintype.card_coe] at hrank

/-- A linear system determines equally many variables, however it is solved. -/
theorem card_eq (h : Linear p) (hvs : SolvedBy p vs) (hws : SolvedBy p ws) :
    vs.card = ws.card := by
  have hsame : h.directions vs ws = h.directions ws vs := by
    ext d
    exact and_congr_right fun _ => forall_congr' fun v =>
      ⟨fun hd hw hv => hd hv hw, fun hd hv hw => hd hw hv⟩
  have hcard : (ws \ vs).card = (vs \ ws).card := by
    rw [← h.finrank_directions hvs, hsame, h.finrank_directions hws]
  have hsplit := Finset.card_sdiff_add_card_inter ws vs
  have hsplit' := Finset.card_sdiff_add_card_inter vs ws
  rw [Finset.inter_comm] at hsplit'
  omega

end Linear

/-- The value of an expression is linear in the assignment. -/
theorem LinExpr.eval_add_smul_sub (e : LinExpr Rat) (a b c : Assignment) (q : Rat) :
    e.eval (a + q • (b - c)) = e.eval a + q * (e.eval b - e.eval c) := by
  suffices hterms : ∀ terms : Assoc VarId Rat,
      (terms.map fun term => term.2 * (a + q • (b - c)) term.1).sum =
        (terms.map fun term => term.2 * a term.1).sum +
          q * ((terms.map fun term => term.2 * b term.1).sum -
            (terms.map fun term => term.2 * c term.1).sum) by
    rw [eval, eval, eval, eval, hterms]
    ring
  intro terms
  induction terms with
  | nil => simp
  | cons term terms ih =>
      have hvalue : (a + q • (b - c)) term.1 = a term.1 + q * (b term.1 - c term.1) := rfl
      rw [List.map_cons, List.sum_cons, ih, hvalue]
      simp only [List.map_cons, List.sum_cons]
      ring

namespace Tableau

variable {t : Tableau Rat Rat} {own : VarId → Prop}

/-- The solutions form an affine space. -/
theorem linear_satisfies (t : Tableau Rat Rat) : Linear t.Satisfies := by
  intro a b c ha hb hc q r hr
  rw [Row.Holds, LinExpr.eval_add_smul_sub, ← ha r hr, ← hb r hr, ← hc r hr]
  rfl

/-- The basic variables. -/
def basis (t : Tableau Rat Rat) : Finset VarId :=
  (t.rows.map Row.basic).toFinset

/-- The basis is the set of basic variables. -/
theorem mem_basis {v : VarId} : v ∈ t.basis ↔ t.IsBasic v := by
  rw [basis, List.mem_toFinset, List.mem_map, IsBasic]

/-- Each row has a basic variable of its own. -/
theorem Linked.card_basis {out : Option RowId} (h : t.Linked out) :
    t.basis.card = t.rows.length := by
  have hnodup : (t.rows.map Row.basic).Nodup :=
    (List.Nodup.of_map Row.id h.nodup_ids).map_on fun r hr s hs => h.eq_of_basic_eq hr hs
  rw [basis, List.toFinset_card_of_nodup hnodup, List.length_map]

/-- The rows give the basic variables by the others. -/
theorem Linked.solvedBy_basis {out : Option RowId} (h : t.Linked out) :
    SolvedBy t.Satisfies t.basis := by
  intro b
  refine ⟨t.extend b, ⟨h.satisfies_extend b, fun v hv => ?_⟩, ?_⟩
  · exact h.extend_of_not_isBasic (fun hbasic => hv (mem_basis.mpr hbasic)) b
  · rintro a ⟨ha, hvalue⟩
    have hsame : ∀ v, ¬t.IsBasic v → a v = t.extend b v := fun v hv => by
      rw [h.extend_of_not_isBasic hv, hvalue v fun hmem => hv (mem_basis.mp hmem)]
    funext v
    by_cases hv : t.IsBasic v
    · obtain ⟨r, hr, rfl⟩ := hv
      rw [ha r hr, h.satisfies_extend b r hr]
      exact LinExpr.eval_congr fun w hw => hsame w ((h.row r hr).term w hw).2
    · exact hsame v hv

/-- The markers of the constraints. -/
def markers (t : Tableau Rat Rat) : Finset VarId :=
  (t.constraints.map fun entry => entry.2.tag.marker).toFinset

/-- The markers are those of the constraints that are listed. -/
theorem mem_markers (hnodup : t.constraints.keys.Nodup) {v : VarId} :
    v ∈ t.markers ↔ ∃ id c, t.constraints.get? id = some c ∧ c.tag.marker = v := by
  simp only [markers, List.mem_toFinset, List.mem_map, Prod.exists,
    Assoc.get?_eq_some_iff hnodup]

/-- Each constraint has a marker of its own. -/
theorem Owned.card_markers (h : t.Owned) (hnodup : t.constraints.keys.Nodup) :
    t.markers.card = t.constraints.length := by
  have hmarkers : (t.constraints.map fun entry => entry.2.tag.marker).Nodup := by
    refine (List.Nodup.of_map Prod.fst hnodup).map_on ?_
    rintro ⟨id, c⟩ hc ⟨id', c'⟩ hc' heq
    have hc := (Assoc.get?_eq_some_iff hnodup).mpr hc
    have hc' := (Assoc.get?_eq_some_iff hnodup).mpr hc'
    obtain rfl := h.disjoint id c id' c' hc hc' c.tag.marker List.mem_cons_self
      (heq ▸ List.mem_cons_self)
    rw [hc] at hc'
    rw [Option.some.inj hc']
  rw [markers, List.toFinset_card_of_nodup hmarkers, List.length_map]

/-- The markers can be chosen so that the constraints hold, one after another: each is in no
equation but its own. -/
theorem Authored.exists_holds (h : t.Authored own) (b : Assignment)
    {entries : Assoc ConstraintId (Constraint Rat)} (hnodup : entries.keys.Nodup)
    (hentries : ∀ entry ∈ entries, t.constraints.get? entry.1 = some entry.2) :
    ∃ a, (∀ entry ∈ entries, entry.2.Holds a) ∧
      ∀ v, (∀ entry ∈ entries, entry.2.tag.marker ≠ v) → a v = b v := by
  induction entries with
  | nil => exact ⟨b, fun _ hentry => absurd hentry List.not_mem_nil, fun _ _ => rfl⟩
  | cons entry entries ih =>
      obtain ⟨hnew, hnodup⟩ := List.nodup_cons.mp hnodup
      obtain ⟨a, hholds, hvalue⟩ := ih hnodup fun e he => hentries e (List.mem_cons_of_mem _ he)
      have hentry := hentries entry List.mem_cons_self
      obtain ⟨x, hx⟩ := (h.faithful.fit entry.1 entry.2 hentry).exists_holds a
      refine ⟨update a entry.2.tag.marker x, fun e he => ?_, fun v hv => ?_⟩
      · rcases List.mem_cons.mp he with rfl | he
        · exact hx
        · have hid : e.1 ≠ entry.1 := fun heq => hnew (heq ▸ List.mem_map_of_mem he)
          exact (h.holds_update hentry List.mem_cons_self hid
            (hentries e (List.mem_cons_of_mem _ he)) x).mpr (hholds e he)
      · rw [update_of_ne (hv entry List.mem_cons_self).symm]
        exact hvalue v fun e he => hv e (List.mem_cons_of_mem _ he)

/-- The equations of the constraints give their markers by the other variables: with its value in
another solution, a marker makes its equation hold in this one too. -/
theorem Authored.solvedBy_markers (h : t.Authored own) (hroom : t.Unwrapped)
    (hnodup : t.constraints.keys.Nodup) :
    SolvedBy t.Satisfies t.markers := by
  intro b
  have hmem : ∀ {v}, v ∈ t.markers ↔ ∃ id c, t.constraints.get? id = some c ∧ c.tag.marker = v :=
    mem_markers hnodup
  have hentry : ∀ entry, entry ∈ t.constraints ↔ t.constraints.get? entry.1 = some entry.2 :=
    fun _ => (Assoc.get?_eq_some_iff hnodup).symm
  obtain ⟨a, hholds, hvalue⟩ := h.exists_holds b hnodup fun entry => (hentry entry).mp
  refine ⟨a, ⟨h.faithful.satisfies hroom a fun id c hc => hholds (id, c) ((hentry _).mpr hc),
    fun v hv => hvalue v fun entry he heq => hv (hmem.mpr ⟨_, _, (hentry entry).mp he, heq⟩)⟩, ?_⟩
  rintro a' ⟨hsat, hvalue'⟩
  have hsame : ∀ v ∉ t.markers, a' v = a v := fun v hv => by
    rw [hvalue' v hv, hvalue v fun entry he heq => hv (hmem.mpr ⟨_, _, (hentry entry).mp he, heq⟩)]
  funext v
  by_cases hv : v ∈ t.markers
  · obtain ⟨id, c, hc, rfl⟩ := hmem.mp hv
    have hfit := h.faithful.fit id c hc
    obtain ⟨y, hy⟩ := hfit.holds_update_marker_iff a
    have hstay : ∀ w, (w ≠ c.tag.marker → w ∉ t.markers) →
        a' w = update a c.tag.marker (a' c.tag.marker) w := by
      intro w hw
      by_cases hwm : w = c.tag.marker
      · rw [hwm, update_self]
      · rw [update_of_ne hwm, hsame w (hw hwm)]
    have hmoved : c.Holds (update a c.tag.marker (a' c.tag.marker)) := by
      refine (hfit.holds_congr (fun w hw _ => hstay w fun _ hwm => ?_)
        fun w hw => hstay w fun hne hwm => ?_).mp (h.faithful.holds a' hsat id c hc)
      · obtain ⟨id', c', hc', rfl⟩ := hmem.mp hwm
        exact h.apart id' c' hc' _ List.mem_cons_self (h.named id c hc _ hw)
      · obtain ⟨id', c', hc', rfl⟩ := hmem.mp hwm
        obtain rfl := h.faithful.wellFormed.owned.disjoint id c id' c' hc hc' _ hw
          List.mem_cons_self
        rw [hc] at hc'
        exact hne (Option.some.inj hc' ▸ rfl)
    have hheld := hholds (id, c) ((hentry _).mpr hc)
    rw [← Function.update_eq_self c.tag.marker a] at hheld
    rw [(hy _).mp hmoved, (hy _).mp hheld]
  · exact hsame v hv

/-- **One row for each constraint.** -/
theorem Authored.length_rows (h : t.Authored own) (hroom : t.Unwrapped)
    (hnodup : t.constraints.keys.Nodup) : t.rows.length = t.constraints.length := by
  obtain ⟨hlinked, howned, -⟩ := h.faithful.wellFormed
  rw [← hlinked.card_basis, ← howned.card_markers hnodup]
  exact t.linear_satisfies.card_eq hlinked.solvedBy_basis (h.solvedBy_markers hroom hnodup)

end Tableau

namespace Session

variable {s : Session Rat Rat}

/-- In exact arithmetic, whatever a caller does who names only own variables, there is one row for
each constraint as long as handles have not come round. -/
theorem Run.length_rows (h : s.Run Session.Authored) (hroom : s.solver.tableau.Unwrapped) :
    s.solver.tableau.rows.length = s.solver.tableau.constraints.length := by
  obtain ⟨es, hes⟩ := h.reachable.exists_history
  exact h.kept.tableau.length_rows hroom hes.tally_eq.1.nodup

section Failures

variable {request : Request Rat} {relation : Relation} {fault : Fault}

/-- A failed insertion of such a caller leaves as many rows as there were. -/
theorem Run.length_rows_of_error (h : s.Run Session.Authored)
    (hroom : s.solver.tableau.Unwrapped) (hc : s.Authored (.add request relation))
    (hfault : (s.solver.add request relation).1 = .error fault) :
    (s.solver.add request relation).2.tableau.rows.length = s.solver.tableau.rows.length := by
  obtain ⟨htableau, -, -, houtcome⟩ := s.solver.tableau_add request relation
  have hnext : (s.solver.add request relation).2.tableau.entered = s.solver.tableau.entered := by
    rw [htableau]
    exact (h.reachable.wellFormed.linked.entered_insert request relation).2 fault
      (houtcome.symm.trans hfault)
  have hafter : (s.solver.add request relation).2.tableau.rows.length =
      (s.solver.add request relation).2.tableau.constraints.length :=
    (h.step hc).length_rows (hroom.of_le (Nat.le_of_eq hnext))
  rw [hafter, Solver.constraints_of_add_eq_error h.reachable hfault, h.length_rows hroom]

/-- **Nothing leaks** where an insertion of such a caller fails, unless pivoting failed. -/
theorem Run.leakless (h : s.Run Session.Authored) (hroom : s.solver.tableau.Unwrapped)
    (hc : s.Authored (.add request relation))
    (hfault : (s.solver.add request relation).1 = .error fault) (hinternal : ¬fault.isInternal) :
    s.solver.Leakless (s.solver.add request relation).2 :=
  (Solver.leakless_iff_length_rows h.reachable hfault).mpr
    ⟨hinternal, h.length_rows_of_error hroom hc hfault⟩

/-- A refusal changes nothing for such a caller, exactly if the request was not tried or its trial
is traceless. -/
theorem Run.unchanged_iff_traceless (h : s.Run Session.Authored)
    (hroom : s.solver.tableau.Unwrapped) (hc : s.Authored (.add request relation)) {text : String}
    (hrefused : (s.solver.add request relation).1 = .error (.infeasible text)) :
    s.solver.Unchanged (s.solver.add request relation).2 ↔
      (s.solver.Tries request relation → s.solver.Traceless request relation) := by
  rw [Solver.unchanged_iff_length_rows h.reachable hrefused]
  exact and_iff_right (h.length_rows_of_error hroom hc hrefused)

end Failures

end Session

end LexSimplex
