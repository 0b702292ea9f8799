import LexSimplex.Arithmetic.Binary
import LexSimplex.Proofs.Changes
import LexSimplex.Proofs.RowTally

/-!
# Soft requests are accepted

A soft request gets two variables of its own that may not be negative, and their coefficients are
one and minus one. Whichever sign the equation is given, one of the two ends up with minus one, so
the row can define it at once: no artificial variable is needed, and no soft request is refused.

The arithmetic matters for this in one point: minus one must be recognised as negative, and one
and minus one must not be negligible. Nothing is assumed of any other number, so the coefficients
and the constant of the request may be what they like.

## Main definitions

* `Coefficient.SignsUnits`: an arithmetic that knows one from minus one.
* `Counters.effort`: the counters of trials and of exchanges.

## Main results

* `Tableau.coefficient?_joinParts`: every part has the coefficient it was joined with.
* `Tableau.Linked.exists_subject`: the draft of a soft request can define a variable at once.
* `Tableau.WellFormed.insert_soft`: the insertion of a soft request enters its constraint.
* `Solver.Reachable.add_soft`: soft requests are accepted.
-/

namespace LexSimplex

variable {K Q : Type}

/-- An arithmetic **signs units** if minus one is below zero and one is its negation, and neither is
negligible. -/
class Coefficient.SignsUnits (K : Type) [Coefficient K] : Prop extends
    Coefficient.KeepsUnits K where
  neg_one_lt : (-1 : K) < 0
  neg_neg_one : -(-1 : K) = 1

instance : Coefficient.SignsUnits Rat :=
  ⟨by decide, by decide⟩

instance : Coefficient.SignsUnits Float :=
  ⟨by decide +kernel, rfl⟩

/-- One and minus one are not negligible. -/
theorem Coefficient.SignsUnits.not_negligible [Coefficient K] [Coefficient.SignsUnits K] {c : K}
    (h : c = 1 ∨ c = -1) : ¬Coefficient.negligible c := by
  rcases h with rfl | rfl
  · exact Coefficient.KeepsUnits.one
  · exact Coefficient.KeepsUnits.neg_one

/-- What the counters say of the work done beyond entering rows: the artificial variables made, and
the rounds and exchanges of minimisations. -/
def Counters.effort (c : Counters) : Nat × Nat × Nat :=
  (c.artificialConstraints, c.iterations, c.pivots)

variable [Coefficient K]

namespace LinExpr

variable {e : LinExpr K}

/-- A term that is set has its new coefficient unless that is negligible, and the others keep
theirs. -/
theorem coefficient?_setTerm (h : e.vars.Nodup) (v : VarId) (c : K) (w : VarId) :
    (e.setTerm v c).coefficient? w =
      if w = v then (if Coefficient.negligible c then none else some c) else e.coefficient? w := by
  rw [setTerm]
  split
  · exact Assoc.get?_swapErase h v w
  · exact Assoc.get?_insert e.terms v c w

/-- Changing the sign changes that of every coefficient. -/
theorem coefficient?_negate (e : LinExpr K) (v : VarId) :
    e.negate.coefficient? v = (e.coefficient? v).map (-·) := by
  rw [coefficient?, coefficient?, negate]
  induction e.terms with
  | nil => rfl
  | cons term terms ih =>
      rw [List.map_cons, Assoc.get?_cons, Assoc.get?_cons, ih]
      split <;> rfl

end LinExpr

/-- Giving an equation its sign changes the coefficients where the constant is negative. -/
theorem Tableau.coefficient?_orient (e : LinExpr K) (v : VarId) :
    (Tableau.orient e).coefficient? v =
      (e.coefficient? v).map fun c => if e.constant < 0 then -c else c := by
  rw [Tableau.orient]
  split
  · exact e.coefficient?_negate v
  · rw [Option.map_id']

/-! ### The parts of a soft request -/

section Parts

variable [Coefficient.SignsUnits K] {request : Request K} {c : K}

/-- A soft request has a restricted variable with the coefficient one, and one with minus one. -/
theorem exists_mem_parts (hsoft : request.strength.hard = false) (relation : Relation)
    (hc : c = 1 ∨ c = -1) :
    ∃ p ∈ parts request relation, p.kind.restricted ∧ p.coefficient = c := by
  have hneg := Coefficient.SignsUnits.neg_neg_one (K := K)
  have hpair : ∃ p ∈ relationParts request.strength relation,
      p.kind.restricted ∧ p.coefficient = c := by
    cases relation <;> rcases hc with rfl | rfl <;>
      simp [relationParts, equalityParts, inequalityParts, hsoft, Part.kind, Part.coefficient,
        Kind.restricted, hneg]
  obtain ⟨p, hp, hkind⟩ := hpair
  exact ⟨p, List.mem_append_left _ hp, hkind⟩

end Parts

namespace Tableau

/-! ### Effort and definitions -/

section Definitions

omit [Coefficient K]

/-- What is counted otherwise is no effort. -/
theorem effort_count (t : Tableau K Q) (f : Counters → Counters)
    (hf : ∀ c, (f c).effort = c.effort) : (t.count f).counters.effort = t.counters.effort := by
  rw [count]
  split
  · exact hf _
  · rfl

/-- The handles of the rows, with the variables that they define. -/
def definitions (t : Tableau K Q) : List (RowId × VarId) :=
  t.rows.map fun r => (r.id, r.basic)

end Definitions

/-- A row that defines a variable at once comes after the others, which define what they did. -/
theorem definitions_solved (t : Tableau K Q) (d : Draft K) (v : VarId) :
    (t.solved d v).definitions = t.definitions ++ [(d.row, v)] := by
  rw [definitions, solved, rows_attach, List.map_append]
  refine congrArg (· ++ [(d.row, v)]) ?_
  refine (List.map_map ..).trans (List.map_congr_left fun r _ => ?_)
  rw [Function.comp_apply]
  split <;> rfl

variable [Scalar Q] {t t' : Tableau K Q} {ps : List (Part K)} {vs : List VarId}

/-! ### Parts and their variables -/

/-- Joining parts takes no effort. -/
theorem effort_joinParts (t : Tableau K Q) (e : LinExpr K) (ps : List (Part K)) :
    (t.joinParts e ps).2.2.counters.effort = t.counters.effort := by
  induction ps generalizing t e with
  | nil => rfl
  | cons p ps ih =>
      rw [joinParts_cons, ih]
      cases p <;> exact effort_count _ _ fun _ => rfl

/-- Every **part** has the coefficient with which it was joined, and what was there before keeps
its own. -/
theorem coefficient?_joinParts (t : Tableau K Q) {e : LinExpr K} (h : e.vars.Nodup)
    (ps : List (Part K)) :
    (∀ w, w ∉ (t.joinParts e ps).2.1 →
      (t.joinParts e ps).1.coefficient? w = e.coefficient? w) ∧
    ∀ x ∈ (t.joinParts e ps).2.1.zip ps, ¬Coefficient.negligible x.2.coefficient →
      (t.joinParts e ps).1.coefficient? x.1 = some x.2.coefficient := by
  induction ps generalizing t e with
  | nil => exact ⟨fun _ _ => rfl, fun _ hx => absurd hx (by simp [joinParts])⟩
  | cons p ps ih =>
      obtain ⟨hothers, hparts⟩ := ih (t.makePart p).2
        (LinExpr.nodup_vars_setTerm h (t.makePart p).1 p.coefficient)
      have hset := LinExpr.coefficient?_setTerm h (t.makePart p).1 p.coefficient
      have hnodup := (t.joined_joinParts e (p :: ps)).nodup
      rw [joinParts_cons] at hnodup ⊢
      refine ⟨fun w hw => ?_, fun x hx hp => ?_⟩
      · obtain ⟨hne, hw⟩ := List.ne_and_not_mem_of_not_mem_cons hw
        rw [hothers w hw, hset, if_neg hne]
      · rcases List.mem_cons.mp hx with rfl | hx
        · rw [hothers _ (List.nodup_cons.mp hnodup).1, hset, if_pos rfl, if_neg hp]
        · exact hparts x hx hp

omit [Coefficient K] in
/-- The variable of every part has the part's kind. -/
theorem Joined.kind_of_mem_zip (h : t.Joined ps vs t') :
    ∀ x ∈ vs.zip ps, t'.kind x.1 = x.2.kind := by
  have hkinds : List.Forall₂ (fun v p => t'.kind v = Part.kind p) vs ps :=
    List.forall₂_map_left_iff.mp (List.forall₂_map_right_iff.mp
      (List.forall₂_eq_eq_eq (α := Kind) ▸ h.kinds))
  exact fun x hx => (List.forall₂_iff_zip.mp hkinds).2 hx

omit [Coefficient K] in
/-- Every part has a variable. -/
theorem Joined.exists_mem_zip (h : t.Joined ps vs t') {p : Part K} (hp : p ∈ ps) :
    ∃ v ∈ vs, (v, p) ∈ vs.zip ps := by
  obtain ⟨i, hi, rfl⟩ := List.mem_iff_getElem.mp hp
  have hi' : i < vs.length := h.length_eq ▸ hi
  refine ⟨vs[i], List.getElem_mem hi', List.mem_iff_getElem.mpr ⟨i, ?_, ?_⟩⟩
  · rw [List.length_zip]
    exact lt_min hi' hi
  · rw [List.getElem_zip]

/-! ### The variable that a soft request defines -/

section Drafts

variable [Precision K Q] {request : Request K} {relation : Relation}

/-- The draft of a soft request **can define a variable** at once. It is defined by the part whose
coefficient becomes minus one where the equation gets its sign. -/
theorem Linked.exists_subject [Coefficient.SignsUnits K] (h : t.Linked none)
    (hsoft : request.strength.hard = false) (relation : Relation) :
    ∃ v, (t.draft request relation).2.subject? (t.draft request relation).1 = some v := by
  obtain ⟨tag, hdraft, hvars, -⟩ := t.draft_eq request relation
  have hjoined := (h.draft request relation).joined
  have hcoef := (t.acquireRow.2.coefficient?_joinParts (h.express request.expr).1
    (parts request relation)).2
  rw [hdraft] at hjoined ⊢
  rw [← joined, ← hvars] at hcoef
  set e := (t.joined request relation).1 with he
  have hunit : (if e.constant < 0 then (1 : K) else -1) = 1 ∨
      (if e.constant < 0 then (1 : K) else -1) = -1 := by
    split
    · exact .inl rfl
    · exact .inr rfl
  obtain ⟨p, hp, hkind, hunit'⟩ := exists_mem_parts hsoft relation hunit
  obtain ⟨v, hv, hzip⟩ := hjoined.exists_mem_zip hp
  have hterm := hcoef (v, p) hzip (hunit' ▸ Coefficient.SignsUnits.not_negligible hunit)
  have hnegative : (orient e).coefficient v = -1 := by
    rw [LinExpr.coefficient, coefficient?_orient, hterm, hunit']
    split <;> rfl
  have hrestricted : ((t.joined request relation).2.2.kind v).restricted :=
    (hjoined.kind_of_mem_zip _ hzip) ▸ hkind
  refine Option.isSome_iff_exists.mp ?_
  rw [subject?, Option.isSome_or, Bool.or_eq_true]
  refine .inr (List.find?_isSome.mpr ⟨v, hv, ?_⟩)
  rw [hrestricted, hnegative, Bool.true_and, decide_eq_true_eq]
  exact Coefficient.SignsUnits.neg_one_lt

/-- Drafting a request takes no effort. -/
theorem effort_draft (t : Tableau K Q) (request : Request K) (relation : Relation) :
    (t.draft request relation).2.counters.effort = t.counters.effort := by
  obtain ⟨tag, hdraft, -⟩ := t.draft_eq request relation
  rw [hdraft]
  exact (effort_joinParts _ _ _).trans (effort_count _ _ fun _ => rfl)

omit [Coefficient K] [Scalar Q] [Precision K Q] in

/-- Entering a constraint takes no effort. -/
theorem effort_register (t : Tableau K Q) (c : Constraint K) :
    (t.register c).2.counters.effort = t.counters.effort := by
  obtain ⟨p, hp⟩ := foldl_modifyVar Variable.retainFold c.tag.folded t
  rw [register]
  dsimp only
  rw [hp]
  exact effort_count _ _ fun _ => rfl

omit [Precision K Q] in
/-- Where a draft can define a variable at once, placing it takes no effort. -/
theorem place_of_subject {d : Draft K} {v : VarId} (hv : t.subject? d = some v) :
    (t.place d).1 = .ok true ∧ (t.place d).2.definitions = t.definitions ++ [(d.row, v)] ∧
      (t.place d).2.counters.effort = t.counters.effort := by
  rw [place, hv]
  dsimp only
  rw [← solved]
  refine ⟨rfl, ?_, ?_⟩
  · rw [definitions, rows_count]
    exact t.definitions_solved d v
  · have hsolved : (t.solved d v).counters.effort = t.counters.effort :=
      effort_count _ _ fun _ => rfl
    rw [← hsolved]
    exact effort_count _ _ fun _ => rfl

/-- An **insertion** of a request whose draft can define a variable at once is accepted, with one
more row and no effort. -/
theorem Linked.insert_of_subject (h : t.Linked none) {v : VarId}
    (hlive : ∀ v ∈ request.expr.vars, t.vars.isLive v)
    (hv : (t.draft request relation).2.subject? (t.draft request relation).1 = some v) :
    (∃ id, (t.insert request relation).1 = .ok id) ∧
      (t.insert request relation).2.definitions =
        t.definitions ++ [((t.draft request relation).1.row, v)] ∧
      (t.insert request relation).2.counters.effort = t.counters.effort := by
  obtain ⟨hok, hdefs, heffort⟩ := place_of_subject hv
  refine insert_cases (p := fun result => (∃ id, result.1 = .ok id) ∧
    result.2.definitions = t.definitions ++ [((t.draft request relation).1.row, v)] ∧
    result.2.counters.effort = t.counters.effort) ?_ ?_ ?_ ?_
  · exact fun v hmem hgone => absurd (hlive v hmem) hgone
  · exact fun fault _ hfault => absurd (hok.symm.trans hfault) (by simp)
  · refine fun _ _ => ⟨⟨_, rfl⟩, ?_, ?_⟩
    · rw [definitions, rows_register]
      refine hdefs.trans ?_
      rw [definitions, (h.draft request relation).joined.rows]
      rfl
    · exact (effort_register _ _).trans (heffort.trans (t.effort_draft request relation))
  · exact fun _ _ _ hrefused => absurd (hok.symm.trans hrefused) (by simp)

/-- The insertion of a **soft request** whose variables are live enters a constraint, with one more
row and no effort: its draft can define a variable. -/
theorem WellFormed.insert_soft [Coefficient.SignsUnits K] (h : t.WellFormed)
    (hsoft : request.strength.hard = false) (hlive : ∀ v ∈ request.expr.vars, t.vars.isLive v)
    (relation : Relation) :
    ∃ c v, (t.insert request relation).1 = .ok t.nextConstraint ∧ c.request = request ∧
      c.relation = relation ∧ t.Entered c (t.insert request relation).2 ∧
      (t.draft request relation).2.subject? (t.draft request relation).1 = some v ∧
      (t.insert request relation).2.definitions =
        t.definitions ++ [((t.draft request relation).1.row, v)] ∧
      (t.insert request relation).2.counters.effort = t.counters.effort := by
  obtain ⟨v, hv⟩ := h.linked.exists_subject hsoft relation
  obtain ⟨⟨id, hok⟩, hdefs, heffort⟩ := h.linked.insert_of_subject hlive hv
  rcases h.insert_or request relation with ⟨c, hnext, hrequest, hrelation, hc⟩ | ⟨fault, hfault, -⟩
  · exact ⟨c, v, hnext, hrequest, hrelation, hc, hv, hdefs, heffort⟩
  · exact absurd (hok.symm.trans hfault) (by simp)

end Drafts

end Tableau

namespace Solver

variable [Scalar Q] [Precision K Q] {s : Solver K Q} {request : Request K}

/-- **Soft requests are accepted.** A request that names a variable which is not live fails for the
first of these, and nothing happens. Every other soft request is accepted in every reachable solver,
whatever its relation, its terms, its constant and its error terms: it becomes a constraint, with
one row after the others, which keep their basic variables. No artificial variable is made and
nothing is minimised. As long as fewer constraints were entered than there are handles, the handle
is new and the constraint comes after the others. -/
theorem Reachable.add_soft [Coefficient.SignsUnits K] (h : s.Reachable)
    (hsoft : request.strength.hard = false) (relation : Relation) :
    (∀ v, request.expr.vars.find? (fun v => !s.tableau.vars.isLive v) = some v →
      s.add request relation = (.error (.unknownVariable v), { s with status := .building })) ∧
    ((∀ v ∈ request.expr.vars, s.tableau.vars.isLive v) →
      ∃ id c row v, (s.add request relation).1 = .ok id ∧
        (s.add request relation).2.tableau.constraints = s.tableau.constraints.insert id c ∧
        c.request = request ∧ c.relation = relation ∧
        (s.add request relation).2.tableau.definitions = s.tableau.definitions ++ [(row, v)] ∧
        ¬(s.tableau.draft request relation).2.Tried (s.tableau.draft request relation).1 ∧
        (s.add request relation).2.tableau.counters.effort = s.tableau.counters.effort ∧
        (s.tableau.Unwrapped → s.hasConstraint id = false ∧
          (s.add request relation).2.tableau.constraints =
            s.tableau.constraints ++ [(id, c)])) := by
  have hwell := h.wellFormed
  refine ⟨fun v hv => ?_, fun hlive => ?_⟩
  · rw [add, Tableau.insert, hv]
    rfl
  · obtain ⟨htableau, -, -, hresult⟩ := s.tableau_add request relation
    obtain ⟨c, v, hok, hrequest, hrelation, hc, hv, hdefs, heffort⟩ :=
      hwell.insert_soft hsoft hlive relation
    rw [htableau, hresult]
    refine ⟨_, c, _, v, hok, hc.constraints_eq, hrequest, hrelation, hdefs,
      fun htried => absurd (hv.symm.trans htried.1) (by simp), heffort, fun hroom => ?_⟩
    have hnot : s.hasConstraint s.tableau.nextConstraint = false := by
      rw [hasConstraint, Assoc.contains, hwell.get?_nextConstraint hroom]
      rfl
    exact ⟨hnot, by rw [hc.constraints_eq, Assoc.insert, if_neg (Bool.not_eq_true _ ▸ hnot)]⟩

/-- A solver with two soft constraints and a hard one, an exchange behind it and a pinned
variable. -/
def crowded : Solver Float Float32 :=
  (empty {}).run
    [.declare .external "", .declare .external "", .arrange (.value ⟨0⟩ 3) .low,
      .arrange (.value ⟨0⟩ 5) .medium, .optimize, .pin ⟨1⟩ 40,
      .arrange (.greater ⟨0⟩ ⟨1⟩ 10) .fixed]

/-- A soft request with an error term of its author's. It asks for more than the hard constraint
allows. -/
def wish : Request Float :=
  (((Layout.lower ⟨0⟩ ⟨1⟩ (-100 : Float32)).request .low : Request Float).addError (7 : Float32)
    .high)

/-- The request is accepted: there is one more constraint and one more row, and neither a trial nor
an exchange is added to those before. -/
theorem add_soft_of_crowded :
    crowded.Reachable ∧ wish.strength.hard = false ∧ (crowded.add wish .le).1 = .ok ⟨3⟩ ∧
      (crowded.add wish .le).2.tableau.constraints.length = 4 ∧
      (crowded.add wish .le).2.tableau.definitions =
        crowded.tableau.definitions ++ [(⟨3⟩, ⟨8⟩)] ∧
      (crowded.add wish .le).2.tableau.counters.effort = (1, 2, 2) ∧
      crowded.tableau.counters.effort = (1, 2, 2) := by
  have hreachable : crowded.Reachable := ⟨{}, _, rfl⟩
  have hsoft : wish.strength.hard = false := rfl
  have hbefore : (∀ v ∈ wish.expr.vars, crowded.tableau.vars.isLive v) ∧
      crowded.tableau.constraints.length = 3 ∧
      crowded.tableau.counters.effort = (1, 2, 2) := by decide +kernel
  obtain ⟨hlive, hlength, heffort⟩ := hbefore
  have hafter : (crowded.add wish .le).1 = .ok ⟨3⟩ ∧
      (crowded.add wish .le).2.tableau.definitions =
        crowded.tableau.definitions ++ [(⟨3⟩, ⟨8⟩)] := by decide +kernel
  obtain ⟨-, hadd⟩ := hreachable.add_soft hsoft .le
  obtain ⟨id, c, row, v, -, -, -, -, -, -, hsame, hnew⟩ := hadd hlive
  obtain ⟨-, hcons⟩ := hnew (by decide +kernel)
  refine ⟨hreachable, hsoft, hafter.1, ?_, hafter.2, hsame.trans heffort, heffort⟩
  rw [hcons, List.length_append, hlength]
  rfl

end Solver

end LexSimplex
