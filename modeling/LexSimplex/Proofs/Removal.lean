import LexSimplex.Proofs.Insertion
import LexSimplex.Tableau.Remove

/-!
# Removal

A removal takes a constraint out of the list, its penalties out of the goal, its equation out of
the rows and its variables out of the tableau. Each of these steps keeps the links, and the
variables of all other constraints are kept.

## Main results

* `Tableau.removeEquation_cases`: the ways to take out an equation.
* `Tableau.WellFormed.remove`: a removal keeps a tableau well-formed.
-/

namespace LexSimplex

namespace Tableau

variable {K Q : Type} [Coefficient K] {t : Tableau K Q} {marker : VarId}

/-! ### Penalties -/

/-- A penalty is of the goal alone. -/
theorem unpenalise_eq (t : Tableau K Q) (v : VarId) :
    ∃ g, t.unpenalise v = { t with goal := g } := by
  rw [unpenalise]
  repeat' split
  · exact ⟨t.goal, rfl⟩
  · exact ⟨_, rfl⟩
  · exact ⟨_, rfl⟩
  · exact ⟨t.goal, rfl⟩

/-- Taking penalties back changes the goal only. -/
theorem foldl_unpenalise (vs : List VarId) (t : Tableau K Q) :
    ∃ g, vs.foldl unpenalise t = { t with goal := g } := by
  induction vs generalizing t with
  | nil => exact ⟨t.goal, rfl⟩
  | cons v vs ih =>
      obtain ⟨g, hg⟩ := unpenalise_eq t v
      obtain ⟨g', hg'⟩ := ih (t.unpenalise v)
      exact ⟨g', by rw [List.foldl_cons, hg', hg]⟩

/-- A penalty is taken out in terms of live variables that are not basic. -/
theorem Linked.unpenalise (h : t.Linked none) (v : VarId) : (t.unpenalise v).Linked none := by
  have hgoal := h.goal t.goal List.mem_cons_self
  rw [Tableau.unpenalise]
  cases hx : t.vars.get? v with
  | none => exact h
  | some x =>
      by_cases hk : x.kind = .error
      · simp only [hk, if_true]
        cases hdef : t.definition? v with
        | none =>
            refine h.withGoal ⟨hgoal.tidy.addTerm _ _ _, fun w hw => ?_⟩
            by_cases hwv : w = v
            · rw [hwv]
              exact ⟨VariablePool.isLive_iff.mpr ⟨x, hx⟩, h.definition?_eq_none_iff.mp hdef⟩
            · exact hgoal.term w ((hgoal.tidy.mem_vars_addTerm_of_ne hwv _ _).mp hw)
        | some r =>
            have hr := (h.definition?_eq_some_iff.mp hdef).1
            refine h.withGoal ⟨hgoal.tidy.addScaled _ _ _, fun w hw => ?_⟩
            rcases hgoal.tidy.mem_or_mem_of_mem_addScaled hw with hw | hw
            · exact (h.row r hr).term w hw
            · exact hgoal.term w hw
      · simp only [hk, if_false]
        exact h

/-! ### The equation -/

/-- The rows in which a marker has a coefficient that is not negligible. -/
theorem Linked.mem_marked (h : t.Linked none) {r : Row K} :
    r ∈ t.marked marker ↔ r ∈ t.rows ∧ marker ∈ r.expr.vars ∧
      ¬Coefficient.negligible (r.expr.coefficient marker) := by
  rw [marked, List.mem_filter, h.mem_referring, and_assoc]
  simp

/-- A row that stops a marker from growing. -/
theorem growthBlocker?_eq_some_iff {r : Row K} {b : Blocker K} :
    t.growthBlocker? marker r = some b ↔ (t.kind r.basic ≠ .external ∧
      r.expr.coefficient marker < 0) ∧
      b = ⟨-r.expr.constant / r.expr.coefficient marker, r.basic, r.id⟩ := by
  rw [growthBlocker?]
  by_cases hr : t.kind r.basic ≠ .external ∧ r.expr.coefficient marker < 0
  · rw [if_pos hr, Option.some.injEq, and_iff_right hr]
    exact eq_comm
  · simp [hr]

/-- A row that rises with a marker. -/
theorem riser?_eq_some_iff {r : Row K} {b : Blocker K} :
    t.riser? marker r = some b ↔ (t.kind r.basic ≠ .external ∧
      ¬r.expr.coefficient marker < 0) ∧
      b = ⟨r.expr.constant / r.expr.coefficient marker, r.basic, r.id⟩ := by
  rw [riser?]
  by_cases hr : t.kind r.basic ≠ .external ∧ ¬r.expr.coefficient marker < 0
  · rw [if_pos hr, Option.some.injEq, and_iff_right hr]
    exact eq_comm
  · simp [hr]

/-- Where nothing stops a marker and nothing rises with it, its rows define external variables. -/
theorem external_of_first?_eq_none
    (hgrowth : Blocker.first? ((t.marked marker).filterMap (t.growthBlocker? marker)) = none)
    (hriser : Blocker.first? ((t.marked marker).filterMap (t.riser? marker)) = none) :
    ∀ s ∈ t.marked marker, t.kind s.basic = .external := by
  rw [Blocker.first?_eq_none_iff, List.filterMap_eq_nil_iff] at hgrowth hriser
  intro s hs
  by_contra hk
  by_cases hneg : s.expr.coefficient marker < 0
  · have hsome := growthBlocker?_eq_some_iff.mpr ⟨⟨hk, hneg⟩, rfl⟩
    rw [hgrowth s hs] at hsome
    exact absurd hsome (by simp)
  · have hsome := riser?_eq_some_iff.mpr ⟨⟨hk, hneg⟩, rfl⟩
    rw [hriser s hs] at hsome
    exact absurd hsome (by simp)

/-- The row that is chosen for a marker is the first to stop its growth; or nothing stops it, and
it is the first of those that rise with it; or all of its rows define external variables. -/
theorem Linked.markerRow?_cases (h : t.Linked none) {r : Row K}
    (hrow : (t.markerRow? marker).bind t.row? = some r) : r ∈ t.marked marker ∧
      ((∃ b, Blocker.first? ((t.marked marker).filterMap (t.growthBlocker? marker)) = some b ∧
        t.growthBlocker? marker r = some b) ∨
      ((t.marked marker).filterMap (t.growthBlocker? marker) = [] ∧
        ∃ b, Blocker.first? ((t.marked marker).filterMap (t.riser? marker)) = some b ∧
          t.riser? marker r = some b) ∨
      ∀ s ∈ t.marked marker, t.kind s.basic = .external) := by
  obtain ⟨id, hid, hr⟩ := Option.bind_eq_some_iff.mp hrow
  obtain ⟨hrt, hrid⟩ := h.row?_eq_some_iff.mp hr
  have hknown : ∀ s ∈ t.marked marker, s.id = id → s = r := fun s hs hsid =>
    h.eq_of_id_eq (h.mem_marked.mp hs).1 hrt (hsid.trans hrid.symm)
  rw [markerRow?] at hid
  cases hgrowth : Blocker.first? ((t.marked marker).filterMap (t.growthBlocker? marker)) with
  | some b =>
      rw [hgrowth, Option.map_some, Option.some_or] at hid
      obtain ⟨s, hs, hsb⟩ := List.mem_filterMap.mp (Blocker.mem_of_first?_eq_some hgrowth)
      obtain ⟨-, rfl⟩ := growthBlocker?_eq_some_iff.mp hsb
      obtain rfl := hknown s hs (Option.some.inj hid)
      exact ⟨hs, .inl ⟨_, rfl, hsb⟩⟩
  | none =>
      rw [hgrowth, Option.map_none, Option.none_or] at hid
      cases hriser : Blocker.first? ((t.marked marker).filterMap (t.riser? marker)) with
      | some b =>
          rw [hriser, Option.map_some, Option.some_or] at hid
          obtain ⟨s, hs, hsb⟩ := List.mem_filterMap.mp (Blocker.mem_of_first?_eq_some hriser)
          obtain ⟨-, rfl⟩ := riser?_eq_some_iff.mp hsb
          obtain rfl := hknown s hs (Option.some.inj hid)
          exact ⟨hs, .inr (.inl ⟨Blocker.first?_eq_none_iff.mp hgrowth, _, rfl, hsb⟩)⟩
      | none =>
          rw [hriser, Option.map_none, Option.none_or] at hid
          obtain ⟨x, hx, hxid⟩ := Option.map_eq_some_iff.mp hid
          obtain ⟨s, hs, hsx⟩ := List.mem_filterMap.mp (mem_of_lowest?_eq_some hx)
          by_cases hk : t.kind s.basic = .external
          · rw [if_pos hk] at hsx
            obtain rfl := Option.some.inj hsx
            obtain rfl := hknown s hs hxid
            exact ⟨hs, .inr (.inr (external_of_first?_eq_none hgrowth hriser))⟩
          · rw [if_neg hk] at hsx
            exact absurd hsx (by simp)

/-- A marker for which no row is chosen has none. -/
theorem Linked.marked_eq_nil (h : t.Linked none)
    (hrow : (t.markerRow? marker).bind t.row? = none) : t.marked marker = [] := by
  have hfound : ∀ s ∈ t.marked marker, t.markerRow? marker ≠ some s.id := by
    intro s hs hid
    rw [hid, Option.bind_some, h.row?_eq_some_iff.mpr ⟨(h.mem_marked.mp hs).1, rfl⟩] at hrow
    exact absurd hrow (by simp)
  rw [markerRow?] at hfound
  cases hgrowth : Blocker.first? ((t.marked marker).filterMap (t.growthBlocker? marker)) with
  | some b =>
      obtain ⟨s, hs, hsb⟩ := List.mem_filterMap.mp (Blocker.mem_of_first?_eq_some hgrowth)
      obtain ⟨-, rfl⟩ := growthBlocker?_eq_some_iff.mp hsb
      rw [hgrowth] at hfound
      exact absurd rfl (hfound s hs)
  | none =>
      cases hriser : Blocker.first? ((t.marked marker).filterMap (t.riser? marker)) with
      | some b =>
          obtain ⟨s, hs, hsb⟩ := List.mem_filterMap.mp (Blocker.mem_of_first?_eq_some hriser)
          obtain ⟨-, rfl⟩ := riser?_eq_some_iff.mp hsb
          rw [hgrowth, hriser] at hfound
          exact absurd rfl (hfound s hs)
      | none =>
          rw [hgrowth, hriser] at hfound
          have hall := external_of_first?_eq_none hgrowth hriser
          refine List.eq_nil_iff_forall_not_mem.mpr fun s hs => ?_
          cases hlow : lowest? ((t.marked marker).filterMap fun r =>
              if t.kind r.basic = .external then some (r.basic, r.id) else none) with
          | none =>
              have hnil := lowest?_eq_none_iff.mp hlow
              rw [List.filterMap_eq_nil_iff] at hnil
              have hnone := hnil s hs
              rw [if_pos (hall s hs)] at hnone
              exact absurd hnone (by simp)
          | some x =>
              obtain ⟨q, hq, hqx⟩ := List.mem_filterMap.mp (mem_of_lowest?_eq_some hlow)
              rw [if_pos (hall q hq)] at hqx
              obtain rfl := Option.some.inj hqx
              rw [hlow] at hfound
              exact absurd rfl (hfound q hq)

/-- A tableau without a row, in which the marker is replaced by what the row says of it. -/
def eliminated (t : Tableau K Q) (r : Row K) (marker : VarId) : Tableau K Q :=
  ((t.detach r).substitute marker (redefined r marker).expr).releaseRow r.id

/-- The **ways to take out** an equation: with the row that its marker defines, through a row in
which its marker stands, or not at all if its marker stands nowhere. -/
theorem removeEquation_cases {p : Tableau K Q → Prop}
    (hbasic : ∀ r, t.definition? marker = some r → p (t.dropRow r))
    (hrow : ∀ r, t.definition? marker = none →
      (t.markerRow? marker).bind t.row? = some r → p (t.eliminated r marker))
    (hnone : t.definition? marker = none → (t.markerRow? marker).bind t.row? = none → p t) :
    p (t.removeEquation marker) := by
  rw [removeEquation]
  cases hdef : t.definition? marker with
  | some r => exact hbasic r hdef
  | none =>
      cases hfind : (t.markerRow? marker).bind t.row? with
      | none => exact hnone hdef hfind
      | some r => exact hrow r hdef hfind

/-- Taking an equation out through a row keeps links and variables. -/
theorem Linked.eliminated (h : t.Linked none) {r : Row K} (hr : r ∈ t.rows) :
    (t.eliminated r marker).Linked none ∧ t.SameVars (t.eliminated r marker) := by
  have hnodup := h.nodup_redefined (v := marker) hr
  have hterm := fun w => h.term_redefined (v := marker) hr (w := w)
  have hsub := (h.detach hr).substitute hnodup hterm
  refine ⟨hsub.releaseRow, ?_⟩
  exact ((SameVars.detach t (h.row r hr).nodup).trans
    ((h.detach hr).sameVars_substitute hnodup marker)).trans (.of_eq rfl)

/-- Taking the equation of a marker out keeps links and variables. -/
theorem Linked.removeEquation (h : t.Linked none) (marker : VarId) :
    (t.removeEquation marker).Linked none ∧ t.SameVars (t.removeEquation marker) := by
  refine removeEquation_cases (p := fun t' => t'.Linked none ∧ t.SameVars t') ?_ ?_ ?_
  · intro r hdef
    obtain ⟨hr, -⟩ := h.definition?_eq_some_iff.mp hdef
    exact ⟨h.dropRow hr, h.sameVars_dropRow hr⟩
  · intro r _ hfind
    obtain ⟨id, -, hrow⟩ := Option.bind_eq_some_iff.mp hfind
    exact h.eliminated (h.row?_eq_some_iff.mp hrow).1
  · exact fun _ _ => ⟨h, SameVars.refl t⟩

/-- Taking the equation of a marker out leaves the constraints. -/
theorem constraints_removeEquation (t : Tableau K Q) (marker : VarId) :
    (t.removeEquation marker).constraints = t.constraints ∧
      (t.removeEquation marker).entered = t.entered := by
  refine removeEquation_cases (p := fun t' => t'.constraints = t.constraints ∧
    t'.entered = t.entered) ?_ ?_ ?_
  · exact fun _ _ => ⟨rfl, rfl⟩
  · exact fun _ _ _ => ⟨rfl, rfl⟩
  · exact fun _ _ => ⟨rfl, rfl⟩

/-! ### The constraint -/

/-- A tableau without a constraint in its list and in its goal, whose equation and variables are
still there. -/
def unlisted (t : Tableau K Q) (id : ConstraintId) (tag : Tag) : Tableau K Q :=
  tag.vars.foldl unpenalise (tag.folded.foldl (fun t v => t.modifyVar v Variable.releaseFold)
    { t with constraints := t.constraints.erase id })

/-- A constraint is withdrawn by taking it off the list, its equation out, and then its own
variables. -/
theorem withdraw_eq (t : Tableau K Q) (id : ConstraintId) (tag : Tag) :
    t.withdraw id tag =
      tag.vars.foldl discard ((t.unlisted id tag).removeEquation tag.marker) :=
  rfl

/-- Taking a constraint off its list and out of the goal changes, apart from these, how often
variables are folded. -/
theorem unlisted_eq (t : Tableau K Q) (id : ConstraintId) (tag : Tag) :
    ∃ p g, t.unlisted id tag =
        { t with vars := p, goal := g, constraints := t.constraints.erase id } ∧
      ∀ vs, Keeps vs t (t.unlisted id tag) := by
  obtain ⟨p, hp⟩ := foldl_modifyVar Variable.releaseFold tag.folded
    { t with constraints := t.constraints.erase id }
  obtain ⟨g, hg⟩ := foldl_unpenalise tag.vars
    { t with vars := p, constraints := t.constraints.erase id }
  have heq : t.unlisted id tag =
      { t with vars := p, goal := g, constraints := t.constraints.erase id } := by
    rw [unlisted, hp, hg]
  refine ⟨p, g, heq, fun vs => ?_⟩
  have hkeeps := Keeps.foldl_modifyVar (f := Variable.releaseFold) (fun _ => rfl) vs
    tag.folded { t with constraints := t.constraints.erase id }
  rw [hp] at hkeeps
  rw [heq]
  exact ⟨hkeeps.role_eq, hkeeps.highWater_le⟩

/-- A constraint that is only taken off the list leaves the rows. -/
theorem rows_unlisted (t : Tableau K Q) (id : ConstraintId) (tag : Tag) :
    (t.unlisted id tag).rows = t.rows := by
  obtain ⟨p, g, heq, -⟩ := t.unlisted_eq id tag
  rw [heq]

/-- A constraint that is no longer listed is gone from the list. -/
theorem constraints_unlisted (t : Tableau K Q) (id : ConstraintId) (tag : Tag) :
    (t.unlisted id tag).constraints = t.constraints.erase id ∧
      (t.unlisted id tag).entered = t.entered := by
  obtain ⟨p, g, heq, -⟩ := t.unlisted_eq id tag
  rw [heq]
  exact ⟨rfl, rfl⟩

/-- A withdrawn constraint is listed no more. -/
theorem constraints_withdraw (t : Tableau K Q) (id : ConstraintId) (tag : Tag) :
    (t.withdraw id tag).constraints = t.constraints.erase id := by
  rw [withdraw_eq, (constraints_foldl_discard _ _).1, (constraints_removeEquation _ _).1,
    (constraints_unlisted _ _ _).1]

/-- A withdrawn constraint still counts as one that was entered. -/
theorem entered_withdraw (t : Tableau K Q) (id : ConstraintId) (tag : Tag) :
    (t.withdraw id tag).entered = t.entered := by
  rw [withdraw_eq, (constraints_foldl_discard _ _).2, (constraints_removeEquation _ _).2,
    (constraints_unlisted _ _ _).2]

/-- Taking a constraint off the list keeps all variables. -/
theorem keeps_unlisted (t : Tableau K Q) (id : ConstraintId) (tag : Tag) (vs : List VarId) :
    Keeps vs t (t.unlisted id tag) := by
  obtain ⟨p, g, -, hkeeps⟩ := t.unlisted_eq id tag
  exact hkeeps vs

/-- Taking a constraint off the list keeps the links. -/
theorem Linked.unlisted (h : t.Linked none) (id : ConstraintId) (tag : Tag) :
    (t.unlisted id tag).Linked none := by
  have hpenalty : ∀ (vs : List VarId) (t : Tableau K Q), t.Linked none →
      (vs.foldl Tableau.unpenalise t).Linked none := by
    intro vs
    induction vs with
    | nil => exact fun t h => h
    | cons v vs ih => exact fun t h => ih _ (h.unpenalise v)
  have hlisted : ({ t with constraints := t.constraints.erase id } : Tableau K Q).Linked none :=
    h.of_eq rfl rfl rfl rfl
  exact hpenalty _ _
    (hlisted.foldl_modifyVar (f := Variable.releaseFold) (fun _ => rfl) tag.folded)

/-- A **removal** keeps a tableau well-formed, and the variables that the constraint did not
own. -/
theorem WellFormed.withdraw (h : t.WellFormed) {id : ConstraintId} {c : Constraint K}
    (hc : t.constraints.get? id = some c) :
    (t.withdraw id c.tag).WellFormed ∧ Keeps c.tag.vars t (t.withdraw id c.tag) := by
  obtain ⟨hremoved, hsame⟩ := (h.linked.unlisted id c.tag).removeEquation c.tag.marker
  have hkeeps : Keeps c.tag.vars t (t.withdraw id c.tag) :=
    ((keeps_unlisted t id c.tag c.tag.vars).trans hsame.keeps).trans
      (hremoved.keeps_foldl_discard c.tag.vars)
  obtain ⟨hcons, hnext⟩ := constraints_unlisted t id c.tag
  obtain ⟨hcons', hnext'⟩ := constraints_removeEquation (t.unlisted id c.tag) c.tag.marker
  obtain ⟨hcons'', hnext''⟩ := constraints_foldl_discard c.tag.vars
    ((t.unlisted id c.tag).removeEquation c.tag.marker)
  have hcons := (hcons''.trans hcons').trans hcons
  have hnext := (hnext''.trans hnext').trans hnext
  exact ⟨⟨hremoved.foldl_discard c.tag.vars, h.owned.erase hc hcons hkeeps,
    h.numbered.erase hcons hnext⟩, hkeeps⟩

/-- What a removal can come to. -/
theorem remove_cases {p : Except Fault Unit × Tableau K Q → Prop} {id : ConstraintId}
    (hunknown : t.constraints.get? id = none → p (.error (.unknownConstraint id), t))
    (hremoved : ∀ c, t.constraints.get? id = some c → p (.ok (), t.withdraw id c.tag)) :
    p (t.remove id) := by
  rw [remove]
  cases hc : t.constraints.get? id with
  | none => exact hunknown hc
  | some c => exact hremoved c hc

/-- A removal enters nothing. -/
theorem entered_remove (t : Tableau K Q) (id : ConstraintId) :
    (t.remove id).2.entered = t.entered :=
  remove_cases (p := fun result => result.2.entered = t.entered) (fun _ => rfl)
    fun c _ => entered_withdraw t id c.tag

/-- A removal keeps a tableau well-formed. -/
theorem WellFormed.remove (h : t.WellFormed) (id : ConstraintId) :
    (t.remove id).2.WellFormed :=
  remove_cases (p := fun result => result.2.WellFormed) (fun _ => h) fun _ hc => (h.withdraw hc).1

end Tableau

end LexSimplex
