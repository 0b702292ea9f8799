import Mathlib.Algebra.Order.Group.MinMax
import LexSimplex.Proofs.Cycles

/-!
# Satisfiability

Adding a constraint decides whether it can hold together with the hard constraints that are there.
The draft of a request is placed in one of four ways, and all of them come to the same question: is
there a solution that respects the kinds in which the draft's equation holds? Where the draft is
placed, the constants of the rows are such a solution. Where it speaks of markers alone, these are
zero in any solution, and its constant decides. Otherwise its equation can hold exactly if the least
value of the artificial variable is zero.

The question does not depend on the variables that are made for the request. It is whether some
solution can be **extended** by values of the request's parts so that the requested expression, with
their values for the folded variables, makes an equation with them.

## Main definitions

* `Tableau.Solvable`: the equation of a draft can hold.
* `Tableau.Compatible`: a request can hold.

## Main results

* `Tableau.BasicFeasible.place_outcome`: placing a draft decides whether it is solvable.
* `Tableau.Linked.solvable_draft_iff`: the draft of a request is solvable if the request is
  compatible.
* `Tableau.compatible_iff_of_hard`: when a hard request is compatible.
* `Solver.Reachable.add_decides`: adding a constraint decides whether it is compatible.
-/

namespace LexSimplex

open Function (update update_self update_of_ne)

namespace Tableau

variable {t m : Tableau Rat Rat} {d : Draft Rat} {art v : VarId} {a : Assignment}
  {request : Request Rat} {relation : Relation}

/-! ### Placing a draft -/

/-- A draft is **solvable** if its equation holds in a solution that respects the kinds. -/
def Solvable (t : Tableau Rat Rat) (d : Draft Rat) : Prop :=
  ∃ a, t.Satisfies a ∧ t.Respects a ∧ d.expr.eval a = 0

/-- A draft that was placed is solvable: the row constants are a solution with its equation. -/
theorem BasicFeasible.solvable_of_place (h : t.BasicFeasible) (hd : t.Admissible d)
    (hconst : 0 ≤ d.expr.constant) (hok : (t.place d).1 = .ok true) : t.Solvable d := by
  obtain ⟨hlinked, hsame⟩ := Linked.place hd.placeable
  have hrespects := (h.place hd hconst).respects_rowValue hlinked
  obtain ⟨hsat, hzero⟩ := (hd.admitted.accepted hok _).mp hlinked.satisfies_rowValue
  exact ⟨_, hsat, (respects_congr hsame.kind_eq).mp hrespects, hzero⟩

/-- A draft of markers alone has its constant as its value. -/
theorem not_solvable_of_constant (hconstant : ∀ w ∈ d.expr.vars, t.kind w = .constant)
    (hne : d.expr.constant ≠ 0) : ¬t.Solvable d := by
  rintro ⟨a, -, hrespects, hzero⟩
  have hstand : d.expr.eval a = d.expr.eval fun _ => 0 :=
    LinExpr.eval_congr fun w hw => (hrespects w).2 (hconstant w hw)
  rw [hstand, LinExpr.eval_zero] at hzero
  exact hne hzero

/-- A solvable draft is a solution of the measured tableau in which the artificial variable is
zero. -/
theorem Measures.exists_zero (h : Measures t d art m) (hd : t.Measurable d art)
    (hkind : ∀ w, w ≠ art → m.kind w = t.kind w) (hsolvable : t.Solvable d) :
    ∃ a, m.Satisfies a ∧ m.Respects a ∧ a art = 0 := by
  obtain ⟨a, hsat, hrespects, hzero⟩ := hsolvable
  refine ⟨update a art 0, (h.satisfies_zero hd).mpr ⟨hsat, hzero⟩, fun w => ?_, update_self ..⟩
  by_cases hw : w = art
  · rw [hw, update_self]
    exact Kind.admits_zero _
  · rw [update_of_ne hw, hkind w hw]
    exact hrespects w

/-- The measurement of a solvable draft that succeeds brings the artificial variable to zero. -/
theorem Measures.isMet_minimise (h : Measures t d art m) (hd : t.Measurable d art)
    (hdescending : m.Descending .phaseOne) (hkind : ∀ w, w ≠ art → m.kind w = t.kind w)
    (hok : (m.minimise .phaseOne).1 = .ok ()) (hsolvable : t.Solvable d) :
    (m.minimise .phaseOne).2.isMet .phaseOne := by
  obtain ⟨hleft, -, -, -, -⟩ := hdescending.minimise
  set u := (m.minimise .phaseOne).2 with hu
  have hnonneg : 0 ≤ byTier (u.objective .phaseOne).constant.get := by
    refine byTier_nonneg fun s => ?_
    rw [← hleft.linked.evalAt_rowValue]
    exact hleft.nonneg _ hleft.linked.satisfies_rowValue
      (hleft.feasible.respects_rowValue hleft.linked) s
  have hle : byTier (u.objective .phaseOne).constant.get ≤ 0 := by
    obtain ⟨a, hsat, hrespects, hart⟩ := h.exists_zero hd hkind hsolvable
    have hvalue : (fun s => (m.objective .phaseOne).evalAt s a) = fun _ => 0 := by
      funext s
      rw [h.objective s a hsat, hart, ite_self]
    rcases hdescending.minimise_cases with ⟨-, hleast⟩ | ⟨limit, hlimit⟩
    · have hleast := hleast a hsat hrespects
      rwa [hvalue, byTier_zero] at hleast
    · rw [hok] at hlimit
      exact absurd hlimit (by simp)
  have hzero : byTier (u.objective .phaseOne).constant.get = byTier fun _ => 0 := by
    rw [byTier_zero]
    exact le_antisymm hle hnonneg
  exact TierVector.isZero_iff.mpr fun s => congrFun (byTier_injective hzero) s

/-- Placing a draft succeeds, or refuses one that is not solvable, or reaches the limit. -/
theorem BasicFeasible.place_refuses (h : t.BasicFeasible) (hd : t.Admissible d)
    (hconst : 0 ≤ d.expr.constant) :
    (t.place d).1 = .ok true ∨ ((t.place d).1 = .ok false ∧ ¬t.Solvable d) ∨
      ∃ limit, (t.place d).1 = .error (.iterationLimit limit) := by
  refine place_cases (p := fun result => result.1 = .ok true ∨
    (result.1 = .ok false ∧ ¬t.Solvable d) ∨
      ∃ limit, result.1 = .error (.iterationLimit limit)) ?_ ?_ ?_ ?_ ?_ ?_
  · exact fun _ _ _ houtcome => houtcome
  · exact fun _ _ => .inl rfl
  · exact fun _ _ _ _ => .inl rfl
  · exact fun _ => .inl rfl
  · exact fun _ hconstant hne =>
      .inr (.inl ⟨rfl, not_solvable_of_constant hconstant fun hz => hne (negligible_iff.mpr hz)⟩)
  · intro f hsubject
    have hcounted := hd.count f
    have hdescending := h.descending_measured hd hconst hsubject f
    rcases hdescending.minimise_cases with ⟨hok, -⟩ | ⟨limit, hlimit⟩
    · by_cases hmet : ((((t.count f).measured d).minimise .phaseOne).2.isMet .phaseOne) = true
      · exact .inl (by simp [reached, hok, hmet, Except.map, Except.toBool])
      · refine .inr (.inl ⟨by simp [reached, hok, hmet, Except.map], fun hsolvable => hmet ?_⟩)
        refine hcounted.measurable.measures.isMet_minimise hcounted.measurable hdescending
          (fun w hw => hcounted.placeable.kind_measured hw) hok ?_
        obtain ⟨a, hsat, hrespects, hzero⟩ := hsolvable
        exact ⟨a, (satisfies_congr (rows_count t f)).mpr hsat,
          (respects_congr (kind_count t f)).mpr hrespects, hzero⟩
    · exact .inr (.inr ⟨limit, by rw [hlimit]; rfl⟩)

/-- **Placing** a draft decides whether it is solvable. -/
theorem BasicFeasible.place_outcome (h : t.BasicFeasible) (hd : t.Admissible d)
    (hconst : 0 ≤ d.expr.constant) :
    ((t.place d).1 = .ok true ∧ t.Solvable d) ∨ ((t.place d).1 = .ok false ∧ ¬t.Solvable d) ∨
      ∃ limit, (t.place d).1 = .error (.iterationLimit limit) :=
  (h.place_refuses hd hconst).imp_left fun hok => ⟨hok, h.solvable_of_place hd hconst hok⟩

/-! ### Requests -/

/-- An assignment with their values for the folded variables. -/
def fold (t : Tableau Rat Rat) (a : Assignment) : Assignment :=
  fun v => if (t.vars.get? v).any Variable.isFolded then t.value v else a v

/-- A request is **compatible** with a tableau if a solution that respects the kinds can be extended
to it: there are values `xs` for the variables to be made for it, each as the kind of its part
admits it, with which the requested expression makes an equation. -/
def Compatible (t : Tableau Rat Rat) (request : Request Rat) (relation : Relation) : Prop :=
  ∃ a, t.Satisfies a ∧ t.Respects a ∧ ∃ xs : List Rat,
    List.Forall₂ (fun p x => p.kind.Admits x) (parts request relation) xs ∧
      request.expr.eval (t.fold a) +
        (List.zipWith (fun p x => p.coefficient * x) (parts request relation) xs).sum = 0

/-- What stands for a variable of an expression is its value, if it is folded. -/
theorem getD_valuesIn (t : Tableau Rat Rat) {e : LinExpr Rat} (a : Assignment) (hv : v ∈ e.vars) :
    ((t.valuesIn e).get? v).getD (a v) = t.fold a v := by
  rw [t.get?_valuesIn hv, fold]
  cases hx : t.vars.get? v with
  | none => rfl
  | some x =>
      by_cases hfolded : x.isFolded
      · rw [Option.filter_some, if_pos hfolded, Option.any_some, if_pos hfolded,
          value_of_isFolded hx hfolded]
        rfl
      · rw [Option.filter_some, if_neg hfolded, Option.any_some, if_neg hfolded]
        rfl

/-- There is an assignment with given values for distinct variables, and those of another for all
other variables. -/
theorem exists_map_eq {vs : List VarId} (hnodup : vs.Nodup) {xs : List Rat}
    (hlength : vs.length = xs.length) (a : Assignment) :
    ∃ b : Assignment, vs.map b = xs ∧ ∀ w, w ∉ vs → b w = a w := by
  induction vs generalizing xs with
  | nil => exact ⟨a, (List.length_eq_zero_iff.mp hlength.symm).symm, fun _ _ => rfl⟩
  | cons v vs ih =>
      obtain ⟨hv, hnodup⟩ := List.nodup_cons.mp hnodup
      cases xs with
      | nil => exact absurd hlength (by simp)
      | cons x xs =>
          obtain ⟨b, hmap, hother⟩ := ih hnodup (Nat.succ.inj hlength)
          refine ⟨update b v x, ?_, fun w hw => ?_⟩
          · rw [List.map_cons, update_self, ← hmap]
            refine congrArg _ (List.map_congr_left fun w hw => update_of_ne ?_ x b)
            exact ne_of_mem_of_not_mem hw hv
          · rw [List.mem_cons, not_or] at hw
            rw [update_of_ne hw.1, hother w hw.2]

/-- Values are as the parts admit them if they are as the kinds of the variables do. -/
theorem forall₂_admits_iff {vs : List VarId} {ps : List (Part Rat)} {kind : VarId → Kind}
    (hkinds : vs.map kind = ps.map Part.kind) (b : Assignment) :
    List.Forall₂ (fun p x => p.kind.Admits x) ps (vs.map b) ↔
      ∀ v ∈ vs, (kind v).Admits (b v) := by
  have hforall : List.Forall₂ Kind.Admits (vs.map kind) (vs.map b) ↔
      ∀ v ∈ vs, (kind v).Admits (b v) := by
    rw [List.forall₂_map_left_iff, List.forall₂_map_right_iff, List.forall₂_same]
  rw [← hforall, hkinds, List.forall₂_map_left_iff]

/-- The equation of a draft's constraint, with the values that the draft's own variables have. -/
theorem Linked.eval_equation_draft (h : t.Linked none)
    (hlive : ∀ v ∈ request.expr.vars, t.vars.isLive v) (relation : Relation) (b : Assignment) :
    (t.draft request relation).1.constraint.equation.eval b = request.expr.eval (t.fold b) +
      (List.zipWith (fun p x => p.coefficient * x) (parts request relation)
        ((t.draft request relation).1.constraint.tag.vars.map b)).sum := by
  have hdrafted := h.draft request relation
  rw [(h.stated hlive relation).fit.eval_equation_parts, Constraint.eval_expr, hdrafted.request_eq,
    hdrafted.relation_eq, LinExpr.eval]
  congr 3
  refine List.map_congr_left fun term hterm => ?_
  rw [Constraint.resolve, hdrafted.values_eq, t.getD_valuesIn b (List.mem_map_of_mem hterm)]

/-- Solutions depend on the live variables. -/
theorem Linked.satisfies_of_eq (h : t.Linked none) {b : Assignment}
    (hab : ∀ w, t.vars.isLive w → b w = a w) (ha : t.Satisfies a) : t.Satisfies b := by
  intro r hr
  have hrow := h.row r hr
  have hexpr : r.expr.eval b = r.expr.eval a :=
    LinExpr.eval_congr fun w hw => hab w (hrow.term w hw).1
  rw [Row.Holds, hab _ hrow.basic_isLive, hexpr]
  exact ha r hr

/-- The variables of the parts were free before. -/
theorem Joined.admits {ps : List (Part Rat)} {vs : List VarId} (h : t.Joined ps vs m) (hv : v ∈ vs)
    (x : Rat) : (t.kind v).Admits x := by
  refine Kind.admits_of_external ?_ x
  rw [kind, h.fresh v hv]
  rfl

/-- Respecting the kinds after parts were joined is respecting them before, and those of the parts'
variables. -/
theorem Joined.respects_iff {ps : List (Part Rat)} {vs : List VarId} (h : t.Joined ps vs m) :
    m.Respects a ↔ t.Respects a ∧ ∀ v ∈ vs, (m.kind v).Admits (a v) := by
  constructor
  · refine fun hrespects => ⟨fun w => ?_, fun w _ => hrespects w⟩
    by_cases hw : w ∈ vs
    · exact h.admits hw _
    · rw [← h.kind_eq hw]
      exact hrespects w
  · rintro ⟨hrespects, hown⟩ w
    by_cases hw : w ∈ vs
    · exact hown w hw
    · rw [h.kind_eq hw]
      exact hrespects w

/-- The values that the equation of a draft has in solutions are those that the requested expression
has with values of the parts. -/
theorem Linked.exists_draft_iff (h : t.Linked none)
    (hlive : ∀ v ∈ request.expr.vars, t.vars.isLive v) (relation : Relation) (x : Rat) :
    (∃ b, (t.draft request relation).2.Satisfies b ∧ (t.draft request relation).2.Respects b ∧
      (t.draft request relation).1.constraint.equation.eval b = x) ↔
    ∃ a, t.Satisfies a ∧ t.Respects a ∧ ∃ xs : List Rat,
      List.Forall₂ (fun p x => p.kind.Admits x) (parts request relation) xs ∧
        request.expr.eval (t.fold a) +
          (List.zipWith (fun p x => p.coefficient * x) (parts request relation) xs).sum = x := by
  have hjoined := (h.draft request relation).joined
  simp only [h.eval_equation_draft hlive relation]
  constructor
  · rintro ⟨b, hsat, hrespects, hvalue⟩
    obtain ⟨hold, hown⟩ := hjoined.respects_iff.mp hrespects
    exact ⟨b, (satisfies_congr hjoined.rows).mp hsat, hold, _,
      (forall₂_admits_iff hjoined.kinds b).mpr hown, hvalue⟩
  · rintro ⟨a, hsat, hrespects, xs, hadmits, hvalue⟩
    obtain ⟨b, rfl, hother⟩ :=
      exists_map_eq hjoined.nodup (hjoined.length_eq.trans hadmits.length_eq) a
    have hlives : ∀ w, t.vars.isLive w → b w = a w :=
      fun w hw => hother w (hjoined.notMem_of_isLive hw)
    have hold : t.Respects b := fun w => by
      by_cases hw : w ∈ (t.draft request relation).1.constraint.tag.vars
      · exact hjoined.admits hw _
      · rw [hother w hw]
        exact hrespects w
    have hexpr : request.expr.eval (t.fold b) = request.expr.eval (t.fold a) :=
      LinExpr.eval_congr fun w hw => by rw [fold, fold, hlives w (hlive w hw)]
    refine ⟨b, (satisfies_congr hjoined.rows).mpr (h.satisfies_of_eq hlives hsat), ?_, ?_⟩
    · exact hjoined.respects_iff.mpr ⟨hold, (forall₂_admits_iff hjoined.kinds b).mp hadmits⟩
    · rw [hexpr]
      exact hvalue

/-- The **draft** of a request is solvable exactly if the request is compatible: the values of its
own variables extend a solution of the tableau. -/
theorem Linked.solvable_draft_iff (h : t.Linked none)
    (hlive : ∀ v ∈ request.expr.vars, t.vars.isLive v) (relation : Relation) :
    (t.draft request relation).2.Solvable (t.draft request relation).1 ↔
      t.Compatible request relation := by
  refine Iff.trans (exists_congr fun a => and_congr_right fun hsat => and_congr_right fun _ => ?_)
    (h.exists_draft_iff hlive relation 0)
  exact (h.stated hlive relation).eval_iff a
    ((satisfies_congr (h.draft request relation).joined.rows).mp hsat)

/-- The values of a single part. -/
theorem exists_forall₂_singleton_iff (p : Part Rat) (e : Rat) :
    (∃ xs : List Rat, List.Forall₂ (fun p x => p.kind.Admits x) [p] xs ∧
      e + (List.zipWith (fun p x => p.coefficient * x) [p] xs).sum = 0) ↔
      ∃ x, p.kind.Admits x ∧ e + p.coefficient * x = 0 := by
  constructor
  · rintro ⟨xs, hadmits, hzero⟩
    obtain ⟨x, ys, hx, hys, rfl⟩ := List.forall₂_cons_left_iff.mp hadmits
    obtain rfl := List.forall₂_nil_left_iff.mp hys
    exact ⟨x, hx, by simpa using hzero⟩
  · rintro ⟨x, hx, hzero⟩
    exact ⟨[x], .cons hx .nil, by simpa using hzero⟩

/-- A hard request is compatible exactly if it **holds** in a solution that respects the kinds: the
slack takes the room that an inequality leaves, and the marker of an equality is zero. -/
theorem compatible_iff_of_hard (hhard : request.strength.hard) (herrors : request.errors = []) :
    t.Compatible request relation ↔
      ∃ a, t.Satisfies a ∧ t.Respects a ∧ relation.Holds (request.expr.eval (t.fold a)) := by
  refine exists_congr fun a => and_congr_right fun _ => and_congr_right fun _ => ?_
  generalize request.expr.eval (t.fold a) = e
  rw [parts, herrors, List.map_nil, List.append_nil]
  cases relation with
  | eq =>
      rw [relationParts, equalityParts, if_pos hhard, exists_forall₂_singleton_iff]
      constructor
      · rintro ⟨x, hx, hzero⟩
        rwa [hx.2 rfl, mul_zero, add_zero] at hzero
      · exact fun he => ⟨0, Kind.admits_zero _, by rw [he, mul_zero, add_zero]⟩
  | le =>
      rw [relationParts, inequalityParts, if_pos hhard, exists_forall₂_singleton_iff]
      constructor
      · rintro ⟨x, hx, hzero⟩
        have hnonneg : 0 ≤ x := hx.1 rfl
        rw [Part.coefficient] at hzero
        exact (by linarith : e ≤ 0)
      · refine fun he => ⟨-e, Kind.admits_of_nonneg rfl (neg_nonneg.mpr he), ?_⟩
        rw [Part.coefficient, one_mul, add_neg_cancel]
  | ge =>
      rw [relationParts, inequalityParts, if_pos hhard, exists_forall₂_singleton_iff]
      constructor
      · rintro ⟨x, hx, hzero⟩
        have hnonneg : 0 ≤ x := hx.1 rfl
        rw [Part.coefficient] at hzero
        exact (by linarith : 0 ≤ e)
      · refine fun he => ⟨e, Kind.admits_of_nonneg rfl he, ?_⟩
        rw [Part.coefficient, neg_one_mul, add_neg_cancel]

/-! ### Adding a constraint -/

/-- An insertion answers as placing the draft does. -/
theorem insert_outcome (hlive : ∀ v ∈ request.expr.vars, t.vars.isLive v) (relation : Relation) :
    ((t.placed request relation).1 = .ok true ∧ ∃ id, (t.insert request relation).1 = .ok id) ∨
    ((t.placed request relation).1 = .ok false ∧
      ∃ text, (t.insert request relation).1 = .error (.infeasible text)) ∨
    ∃ fault, (t.placed request relation).1 = .error fault ∧
      (t.insert request relation).1 = .error fault := by
  refine insert_cases (p := fun result =>
    ((t.placed request relation).1 = .ok true ∧ ∃ id, result.1 = .ok id) ∨
    ((t.placed request relation).1 = .ok false ∧ ∃ text, result.1 = .error (.infeasible text)) ∨
    ∃ fault, (t.placed request relation).1 = .error fault ∧ result.1 = .error fault) ?_ ?_ ?_ ?_
  · exact fun v hv hdead => absurd (hlive v hv) hdead
  · exact fun fault _ hplaced => .inr (.inr ⟨fault, hplaced, rfl⟩)
  · exact fun _ hplaced => .inl ⟨hplaced, _, rfl⟩
  · exact fun text _ _ hplaced => .inr (.inl ⟨hplaced, text, rfl⟩)

/-- An **insertion** decides whether the request is compatible. -/
theorem BasicFeasible.insert_decides (h : t.BasicFeasible) (hl : t.Linked none) (hn : t.Normal)
    (hlive : ∀ v ∈ request.expr.vars, t.vars.isLive v) (relation : Relation) :
    ((∃ id, (t.insert request relation).1 = .ok id) ∧ t.Compatible request relation) ∨
    ((∃ text, (t.insert request relation).1 = .error (.infeasible text)) ∧
      ¬t.Compatible request relation) ∨
    ∃ limit, (t.insert request relation).1 = .error (.iterationLimit limit) := by
  have houtcome := (h.draft hl request relation).place_outcome (hl.admissible hn hlive relation)
    (hl.stated hlive relation).constant_nonneg
  have hplaced : ((t.draft request relation).2.place (t.draft request relation).1).1 =
      (t.placed request relation).1 := rfl
  rw [hl.solvable_draft_iff hlive, hplaced] at houtcome
  rcases insert_outcome hlive relation with ⟨hok, hid⟩ | ⟨hok, htext⟩ | ⟨fault, hfault, herror⟩
  · exact .inl ⟨hid, by simpa [hok] using houtcome⟩
  · exact .inr (.inl ⟨htext, by simpa [hok] using houtcome⟩)
  · obtain ⟨limit, rfl⟩ : ∃ limit, fault = .iterationLimit limit := by
      simpa [hfault] using houtcome
    exact .inr (.inr ⟨limit, herror⟩)

end Tableau

namespace Solver

variable {s : Solver Rat Rat}

/-- Adding a constraint asks what inserting it asks. -/
theorem Reachable.add_verdict (h : s.Reachable) (hfeasible : s.tableau.BasicFeasible)
    {request : Request Rat} (hlive : ∀ v ∈ request.expr.vars, s.tableau.vars.isLive v)
    (relation : Relation) :
    ((∃ id, (s.add request relation).1 = .ok id) ∧ s.tableau.Compatible request relation) ∨
    ((∃ text, (s.add request relation).1 = .error (.infeasible text)) ∧
      ¬s.tableau.Compatible request relation) ∨
    ∃ limit, (s.add request relation).1 = .error (.iterationLimit limit) := by
  obtain ⟨hwell, hnormal, -⟩ := h.regular
  obtain ⟨-, -, -, hresult⟩ := tableau_add s request relation
  rw [hresult]
  exact hfeasible.insert_decides hwell.linked hnormal hlive relation

/-- **Adding a constraint decides satisfiability.** In a reachable solver whose tableau is
basic-feasible, a request for live variables is accepted only if it is compatible with the tableau
and refused as infeasible only if it is not, unless the limit on exchanges is reached; and the
tableau is basic-feasible afterwards. -/
theorem Reachable.add_decides (h : s.Reachable) (hfeasible : s.tableau.BasicFeasible)
    {request : Request Rat} (hlive : ∀ v ∈ request.expr.vars, s.tableau.vars.isLive v)
    (relation : Relation) :
    (s.add request relation).2.tableau.BasicFeasible ∧
      (((∃ id, (s.add request relation).1 = .ok id) ∧ s.tableau.Compatible request relation) ∨
      ((∃ text, (s.add request relation).1 = .error (.infeasible text)) ∧
        ¬s.tableau.Compatible request relation) ∨
      ∃ limit, (s.add request relation).1 = .error (.iterationLimit limit)) := by
  obtain ⟨hwell, hnormal, -⟩ := h.regular
  obtain ⟨htableau, -⟩ := tableau_add s request relation
  rw [htableau]
  exact ⟨hfeasible.insert hwell.linked hnormal request relation,
    h.add_verdict hfeasible hlive relation⟩

/-- Where a variable is at least one, that it be at most zero is refused, and indeed there is no
solution in which it is; that it be at least two is accepted. -/
theorem add_decides_of_floored :
    ¬floored.tableau.Compatible (pinRequest ⟨0⟩ (0 : Rat)) .le ∧
      floored.tableau.Compatible (pinRequest ⟨0⟩ (2 : Rat)) .ge := by
  have hreachable : floored.Reachable := ⟨_, _, rfl⟩
  have hfeasible : floored.tableau.BasicFeasible := by decide +kernel
  constructor
  · have hlive : ∀ v ∈ (pinRequest ⟨0⟩ (0 : Rat) : Request Rat).expr.vars,
        floored.tableau.vars.isLive v := by decide +kernel
    have hrefused : (floored.add (pinRequest ⟨0⟩ (0 : Rat)) .le).1.mapError Fault.isInfeasible =
        .error true := by decide +kernel
    obtain ⟨-, ⟨⟨id, hid⟩, -⟩ | ⟨-, hnot⟩ | ⟨limit, hlimit⟩⟩ :=
      Reachable.add_decides hreachable hfeasible hlive .le
    · rw [hid] at hrefused
      exact absurd hrefused (by simp [Except.mapError])
    · exact hnot
    · rw [hlimit] at hrefused
      exact absurd hrefused (by simp [Except.mapError, Fault.isInfeasible])
  · have hlive : ∀ v ∈ (pinRequest ⟨0⟩ (2 : Rat) : Request Rat).expr.vars,
        floored.tableau.vars.isLive v := by decide +kernel
    have hok : (floored.add (pinRequest ⟨0⟩ (2 : Rat)) .ge).1.toBool = true := by decide +kernel
    obtain ⟨-, ⟨-, hcompatible⟩ | ⟨⟨text, herror⟩, -⟩ | ⟨limit, herror⟩⟩ :=
      Reachable.add_decides hreachable hfeasible hlive .ge
    · exact hcompatible
    · rw [herror] at hok
      exact absurd hok (by simp [Except.toBool])
    · rw [herror] at hok
      exact absurd hok (by simp [Except.toBool])

end Solver

end LexSimplex
