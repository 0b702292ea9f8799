import LexSimplex.Proofs.Placement

/-!
# Insertion and the variables of constraints

Every constraint **owns** the variables that were made for it: they are live as long as the
constraint is there, and no other constraint has them. Together with the links this is what every
operation keeps, in any arithmetic.

## Main definitions

* `Tableau.Owned`: each constraint owns its variables.
* `Tableau.Numbered`: the handles of the constraints were given out.
* `Tableau.WellFormed`: a tableau is linked, its constraints own their variables, and their handles
  were given out.

## Main results

* `Tableau.Numbered.get?_nextConstraint`: until handles come round, the next one is new.
* `Tableau.insert_cases`: what an insertion can come to.
* `Tableau.WellFormed.insert`: an insertion keeps a tableau well-formed, accepted or not.
-/

namespace LexSimplex

namespace Tableau

variable {K Q : Type} {t t' : Tableau K Q}

/-! ### Owned variables -/

/-- Each constraint **owns** its variables: they are distinct and live, and no other constraint
has one of them. The pinned variables that a constraint took in had slots. -/
structure Owned (t : Tableau K Q) : Prop where
  isLive : ∀ id c, t.constraints.get? id = some c → ∀ v ∈ c.tag.vars, t.vars.isLive v
  nodup : ∀ id c, t.constraints.get? id = some c → c.tag.vars.Nodup
  disjoint : ∀ id c id' c', t.constraints.get? id = some c →
    t.constraints.get? id' = some c' → ∀ v ∈ c.tag.vars, v ∈ c'.tag.vars → id = id'
  folded : ∀ id c, t.constraints.get? id = some c →
    ∀ v ∈ c.tag.folded, v.index < t.highWater

/-- With the same constraints, it is enough that no variable and no slot was lost. -/
theorem Owned.of_isLive (h : t.Owned) (hcons : t'.constraints = t.constraints)
    (hkeep : ∀ v, t.vars.isLive v → t'.vars.isLive v) (hslots : t.highWater ≤ t'.highWater) :
    t'.Owned := by
  obtain ⟨hlive, hnodup, hdisjoint, hfolded⟩ := h
  refine ⟨?_, ?_, ?_, ?_⟩
  · rw [hcons]
    exact fun id c hc v hv => hkeep v (hlive id c hc v hv)
  · rw [hcons]
    exact hnodup
  · rw [hcons]
    exact hdisjoint
  · rw [hcons]
    exact fun id c hc v hv => Nat.lt_of_lt_of_le (hfolded id c hc v hv) hslots

/-- With the same constraints and the variables kept, the constraints own their variables. -/
theorem Owned.keeps (h : t.Owned) (hcons : t'.constraints = t.constraints)
    (hkeeps : Keeps [] t t') : t'.Owned :=
  h.of_isLive hcons (fun _ => hkeeps.isLive List.not_mem_nil) hkeeps.highWater_le

/-- A constraint is entered with variables of its own, whether or not its handle was in use. -/
theorem Owned.insert (h : t.Owned) {id : ConstraintId} {c : Constraint K}
    (hcons : t'.constraints = t.constraints.insert id c) (hkeeps : Keeps [] t t')
    (hlive : ∀ v ∈ c.tag.vars, t'.vars.isLive v) (hfresh : ∀ v ∈ c.tag.vars, ¬t.vars.isLive v)
    (hnodup : c.tag.vars.Nodup) (hfolded : ∀ v ∈ c.tag.folded, v.index < t'.highWater) :
    t'.Owned := by
  have hget : ∀ id' c', t'.constraints.get? id' = some c' →
      id' = id ∧ c = c' ∨ id' ≠ id ∧ t.constraints.get? id' = some c' := by
    intro id' c' hc'
    rw [hcons] at hc'
    exact Assoc.get?_insert_eq_some_iff.mp hc'
  refine ⟨?_, ?_, ?_, ?_⟩
  · intro id' c' hc' v hv
    rcases hget id' c' hc' with ⟨-, rfl⟩ | ⟨-, hold⟩
    · exact hlive v hv
    · exact hkeeps.isLive List.not_mem_nil (h.isLive id' c' hold v hv)
  · intro id' c' hc'
    rcases hget id' c' hc' with ⟨-, rfl⟩ | ⟨-, hold⟩
    · exact hnodup
    · exact h.nodup id' c' hold
  · intro id₁ c₁ id₂ c₂ hc₁ hc₂ v hv₁ hv₂
    rcases hget id₁ c₁ hc₁ with ⟨hid₁, rfl⟩ | ⟨-, hold₁⟩
    · rcases hget id₂ c₂ hc₂ with ⟨hid₂, -⟩ | ⟨-, hold₂⟩
      · exact hid₁.trans hid₂.symm
      · exact absurd (h.isLive id₂ c₂ hold₂ v hv₂) (hfresh v hv₁)
    · rcases hget id₂ c₂ hc₂ with ⟨-, rfl⟩ | ⟨-, hold₂⟩
      · exact absurd (h.isLive id₁ c₁ hold₁ v hv₁) (hfresh v hv₂)
      · exact h.disjoint id₁ c₁ id₂ c₂ hold₁ hold₂ v hv₁ hv₂
  · intro id' c' hc' v hv
    rcases hget id' c' hc' with ⟨-, rfl⟩ | ⟨-, hold⟩
    · exact hfolded v hv
    · exact Nat.lt_of_lt_of_le (h.folded id' c' hold v hv) hkeeps.highWater_le

/-- A constraint is taken out, and its variables may go. -/
theorem Owned.erase (h : t.Owned) {id : ConstraintId} {c : Constraint K}
    (hc : t.constraints.get? id = some c) (hcons : t'.constraints = t.constraints.erase id)
    (hkeeps : Keeps c.tag.vars t t') : t'.Owned := by
  have hget : ∀ id' c', t'.constraints.get? id' = some c' →
      id' ≠ id ∧ t.constraints.get? id' = some c' := by
    intro id' c' hc'
    rw [hcons] at hc'
    exact Assoc.get?_erase_eq_some_iff.mp hc'
  refine ⟨?_, ?_, ?_, ?_⟩
  · intro id' c' hc' v hv
    obtain ⟨hne, hold⟩ := hget id' c' hc'
    refine hkeeps.isLive (fun hmem => hne ?_) (h.isLive id' c' hold v hv)
    exact h.disjoint id' c' id c hold hc v hv hmem
  · intro id' c' hc'
    exact h.nodup id' c' (hget id' c' hc').2
  · intro id₁ c₁ id₂ c₂ hc₁ hc₂
    exact h.disjoint id₁ c₁ id₂ c₂ (hget id₁ c₁ hc₁).2 (hget id₂ c₂ hc₂).2
  · intro id' c' hc' v hv
    exact Nat.lt_of_lt_of_le (h.folded id' c' (hget id' c' hc').2 v hv) hkeeps.highWater_le

/-! ### Handles that were given out -/

/-- The handles of the constraints were given out. -/
def Numbered (t : Tableau K Q) : Prop :=
  ∀ id c, t.constraints.get? id = some c → id.index < t.entered

/-- Numbers depend on the constraints and on how many were entered. -/
theorem Numbered.of_eq (h : t.Numbered) (hcons : t'.constraints = t.constraints)
    (hnext : t'.entered = t.entered) : t'.Numbered := by
  rw [Numbered, hcons, hnext]
  exact h

/-- A constraint is entered under the next handle. -/
theorem Numbered.insert (h : t.Numbered) {c : Constraint K}
    (hcons : t'.constraints = t.constraints.insert t.nextConstraint c)
    (hnext : t'.entered = t.entered + 1) : t'.Numbered := by
  intro id c' hc'
  rw [hcons] at hc'
  rw [hnext]
  obtain ⟨rfl, -⟩ | ⟨-, hold⟩ := Assoc.get?_insert_eq_some_iff.mp hc'
  · exact Nat.lt_succ_of_le (Nat.mod_le _ _)
  · exact Nat.lt_succ_of_lt (h id c' hold)

/-- Numbers stay in order where a constraint is erased. -/
theorem Numbered.erase (h : t.Numbered) {id : ConstraintId}
    (hcons : t'.constraints = t.constraints.erase id) (hnext : t'.entered = t.entered) :
    t'.Numbered := by
  intro id' c' hc'
  rw [hcons] at hc'
  rw [hnext]
  exact h id' c' (Assoc.get?_erase_eq_some_iff.mp hc').2

/-- As long as handles have not come round, the next one counts the constraints entered so far. -/
theorem nextConstraint_index (hroom : t.Unwrapped) : t.nextConstraint.index = t.entered :=
  ConstraintId.nth_index_of_lt hroom

/-- As long as handles have not come round, the next one is not that of a constraint. -/
theorem Numbered.get?_nextConstraint (h : t.Numbered) (hroom : t.Unwrapped) :
    t.constraints.get? t.nextConstraint = none := by
  cases hget : t.constraints.get? t.nextConstraint with
  | none => rfl
  | some c =>
      have hlt := h _ c hget
      rw [nextConstraint_index hroom] at hlt
      exact absurd hlt (Nat.lt_irrefl _)

/-- As many constraints entered before, or fewer. -/
theorem Unwrapped.of_le (hroom : t'.Unwrapped) (hle : t.entered ≤ t'.entered) : t.Unwrapped :=
  Nat.lt_of_le_of_lt hle hroom

/-- A tableau is **well-formed** if it is linked, each constraint owns its variables, and the
handles of the constraints were given out. -/
structure WellFormed [Coefficient K] (t : Tableau K Q) : Prop where
  linked : t.Linked none
  owned : t.Owned
  numbered : t.Numbered

section WellFormed

variable [Coefficient K]

/-- With the same constraints and the variables kept, only the links are left to be shown. -/
theorem WellFormed.keeps (h : t.WellFormed) (hlinked : t'.Linked none)
    (hcons : t'.constraints = t.constraints) (hnext : t'.entered = t.entered)
    (hkeeps : Keeps [] t t') : t'.WellFormed :=
  ⟨hlinked, h.owned.keeps hcons hkeeps, h.numbered.of_eq hcons hnext⟩

/-- As long as handles have not come round, nothing is found under the next one. -/
theorem WellFormed.get?_nextConstraint (h : t.WellFormed) (hroom : t.Unwrapped) :
    t.constraints.get? t.nextConstraint = none :=
  h.numbered.get?_nextConstraint hroom

end WellFormed

/-! ### What does not touch the constraints -/

section Constraints

/-- Purging a variable leaves the constraints. -/
theorem constraints_purge (t : Tableau K Q) (v : VarId) :
    (t.purge v).constraints = t.constraints ∧ (t.purge v).entered = t.entered := by
  rw [purge_eq, forget, undefine]
  cases t.definition? v <;> exact ⟨rfl, rfl⟩

/-- Discarding a variable leaves the constraints. -/
theorem constraints_discard (t : Tableau K Q) (v : VarId) :
    (t.discard v).constraints = t.constraints ∧
      (t.discard v).entered = t.entered :=
  constraints_purge t v

/-- Discarding variables leaves the constraints. -/
theorem constraints_foldl_discard (vs : List VarId) (t : Tableau K Q) :
    (vs.foldl discard t).constraints = t.constraints ∧
      (vs.foldl discard t).entered = t.entered := by
  induction vs generalizing t with
  | nil => exact ⟨rfl, rfl⟩
  | cons v vs ih =>
      obtain ⟨hcons, hnext⟩ := constraints_discard t v
      obtain ⟨hcons', hnext'⟩ := ih (t.discard v)
      exact ⟨hcons'.trans hcons, hnext'.trans hnext⟩

/-- The constraints after one was entered. -/
theorem constraints_register (t : Tableau K Q) (c : Constraint K) :
    (t.register c).2.constraints = t.constraints.insert t.nextConstraint c ∧
      (t.register c).2.entered = t.entered + 1 := by
  obtain ⟨p, hp⟩ := foldl_modifyVar Variable.retainFold c.tag.folded t
  rw [register]
  dsimp only
  rw [constraints_count, entered_count, hp]
  exact ⟨rfl, rfl⟩

/-- Entering a constraint changes no row. -/
theorem rows_register (t : Tableau K Q) (c : Constraint K) :
    (t.register c).2.rows = t.rows := by
  obtain ⟨p, hp⟩ := foldl_modifyVar Variable.retainFold c.tag.folded t
  rw [register]
  dsimp only
  rw [rows_count, hp]

variable [Coefficient K]

/-- Retiring an artificial variable leaves the constraints. -/
theorem constraints_retire (t : Tableau K Q) (a marker : VarId) (reached : Bool) :
    (t.retire a marker reached).constraints = t.constraints ∧
      (t.retire a marker reached).entered = t.entered := by
  rw [retire]
  cases t.definition? a with
  | none => exact ⟨rfl, rfl⟩
  | some r =>
      cases hnext : if reached then t.successor? r.expr marker else none with
      | none =>
          simp only [hnext]
          exact ⟨rfl, rfl⟩
      | some v =>
          simp only [hnext]
          exact ⟨constraints_redefine t r v, entered_redefine t r v⟩

/-- Settling a draft leaves the constraints. -/
theorem constraints_settled (t : Tableau K Q) (d : Draft K) (a : VarId) (reached : Bool) :
    (t.settled d a reached).constraints = t.constraints ∧
      (t.settled d a reached).entered = t.entered := by
  obtain ⟨hcons, hnext⟩ := constraints_retire ({ t with phaseOne := none } : Tableau K Q) a
    d.constraint.tag.marker reached
  obtain ⟨hcons', hnext'⟩ := constraints_discard
    (({ t with phaseOne := none } : Tableau K Q).retire a d.constraint.tag.marker reached) a
  exact ⟨hcons'.trans hcons, hnext'.trans hnext⟩

/-- Placing a draft does not enter its constraint. -/
theorem constraints_place [Scalar Q] (t : Tableau K Q) (d : Draft K) :
    (t.place d).2.constraints = t.constraints ∧
      (t.place d).2.entered = t.entered := by
  refine place_cases (p := fun result => result.2.constraints = t.constraints ∧
    result.2.entered = t.entered) ?_ ?_ ?_ ?_ ?_ ?_
  · rintro o t' f ⟨hcons, hnext⟩
    exact ⟨(constraints_count t' f).trans hcons, (entered_count t' f).trans hnext⟩
  · exact fun v _ => ⟨constraints_attach _ _, entered_attach _ _⟩
  · exact fun _ _ _ _ => ⟨constraints_attach _ _, entered_attach _ _⟩
  · exact fun _ => ⟨rfl, rfl⟩
  · exact fun _ _ _ => ⟨rfl, rfl⟩
  · intro f _
    obtain ⟨hcons, hnext⟩ := constraints_settled
      (((t.count f).measured d).minimise .phaseOne).2 d (t.count f).artificial
      (reached (((t.count f).measured d).minimise .phaseOne))
    have hmeasured : ((t.count f).measured d).constraints = t.constraints :=
      (constraints_attach _ _).trans
        ((constraints_addVariable _ .slack none).trans (constraints_count t f))
    have hmeasured' : ((t.count f).measured d).entered = t.entered :=
      (entered_attach _ _).trans
        ((entered_addVariable _ .slack none).trans (entered_count t f))
    exact ⟨hcons.trans ((constraints_minimise _ _).trans hmeasured),
      hnext.trans ((entered_minimise _ _).trans hmeasured')⟩

/-- Entering a constraint keeps the links and the variables, and changes no row. -/
theorem Linked.register (h : t.Linked none) (c : Constraint K) :
    (t.register c).2.Linked none ∧ Keeps [] t (t.register c).2 := by
  have hkeeps := Keeps.foldl_modifyVar (f := Variable.retainFold) (fun _ => rfl) []
    c.tag.folded t
  have hlinked := h.foldl_modifyVar (f := Variable.retainFold) (fun _ => rfl) c.tag.folded
  refine ⟨?_, hkeeps.trans ?_⟩
  · exact hlinked.of_eq (rows_count _ _) (vars_count _ _)
      (rowSlots_count _ _) (objectives_count _ _)
  · refine SameVars.keeps (SameVars.of_eq ?_)
    exact vars_count _ _

end Constraints

/-! ### Insertion -/

section Insert

variable [Coefficient K] [Scalar Q] [Precision K Q] {request : Request K} {relation : Relation}

/-- The draft of a request as it is placed. -/
def placed (t : Tableau K Q) (request : Request K) (relation : Relation) :
    Except Fault Bool × Tableau K Q :=
  (t.draft request relation).2.place (t.draft request relation).1

/-- What an **insertion** can come to: it fails before or after a draft was made, or the draft is
placed and its constraint entered, or it is a contradiction and its variables go again. -/
theorem insert_cases {p : Except Fault ConstraintId × Tableau K Q → Prop}
    (hunknown : ∀ v ∈ request.expr.vars, ¬t.vars.isLive v → p (.error (.unknownVariable v), t))
    (hfault : ∀ fault, (∀ v ∈ request.expr.vars, t.vars.isLive v) →
      (t.placed request relation).1 = .error fault →
      p (.error fault, (t.placed request relation).2))
    (haccepted : (∀ v ∈ request.expr.vars, t.vars.isLive v) →
      (t.placed request relation).1 = .ok true →
      p (.ok (t.placed request relation).2.nextConstraint,
        ((t.placed request relation).2.register (t.draft request relation).1.constraint).2))
    (hrefused : ∀ text f, (∀ v ∈ request.expr.vars, t.vars.isLive v) →
      (t.placed request relation).1 = .ok false →
      p (.error (.infeasible text), ((t.draft request relation).1.constraint.tag.vars.foldl discard
        (t.placed request relation).2).count f)) :
    p (t.insert request relation) := by
  rw [insert]
  cases hfind : request.expr.vars.find? fun v => !t.vars.isLive v with
  | some v =>
      refine hunknown v (List.mem_of_find?_eq_some hfind) ?_
      simpa using List.find?_some hfind
  | none =>
      have hlive : ∀ v ∈ request.expr.vars, t.vars.isLive v := by
        simpa using hfind
      have hplaced : t.placed request relation =
          (t.draft request relation).2.place (t.draft request relation).1 := rfl
      dsimp only
      split
      · rename_i fault t' hplace
        rw [← hplaced] at hplace
        have hfound := hfault fault hlive (congrArg Prod.fst hplace)
        rwa [hplace] at hfound
      · rename_i t' hplace
        rw [← hplaced] at hplace
        have hfound := haccepted hlive (congrArg Prod.fst hplace)
        rwa [hplace] at hfound
      · rename_i t' hplace
        rw [← hplaced] at hplace
        have hfound := fun text => hrefused text
          (fun c => { c with infeasible := c.infeasible + 1 }) hlive (congrArg Prod.fst hplace)
        rw [hplace] at hfound
        exact hfound _

/-- The draft of a request can be placed: its own variables are new, the goal pays for error
variables only, and phase one is as it was. -/
theorem Drafted.placeable {d : Draft K} (h : t.Linked none)
    (hd : t.Drafted request relation d t') : t'.Placeable d := by
  have hown : ∀ w ∈ d.constraint.tag.vars, t'.vars.isLive w ∧ t.Absent w := by
    intro w hw
    refine ⟨(hd.joined.isLive_iff w).mpr (.inl hw), h.absent_of_not_isLive ?_⟩
    exact fun hlive => hd.joined.notMem_of_isLive hlive hw
  refine ⟨hd.linked, hd.nodup, hd.term, fun w hw => ?_, fun hk => ?_⟩
  · rw [isBasic_congr hd.joined.rows]
    exact ⟨(hown w hw).1, (hown w hw).2.not_isBasic⟩
  · obtain ⟨-, habs⟩ := hown d.constraint.tag.marker List.mem_cons_self
    refine ⟨?_, ?_, ?_⟩
    · rw [isBasic_congr hd.joined.rows]
      exact habs.not_isBasic
    · rw [hd.joined.rows]
      exact habs.notMem_row
    · intro g hg hmem
      rcases List.mem_cons.mp hg with rfl | hg
      · rcases hd.goal _ hmem with hold | herror
        · exact habs.notMem_goal _ List.mem_cons_self hold
        · rw [hk] at herror
          exact absurd herror (by simp)
      · rw [hd.joined.phaseOne] at hg
        exact habs.notMem_goal g (List.mem_cons_of_mem _ hg) hmem

/-- An **insertion** keeps a tableau well-formed and keeps its variables, accepted or not: the
variables that a refusal takes out again were not live before. -/
theorem WellFormed.insert (h : t.WellFormed) (request : Request K) (relation : Relation) :
    (t.insert request relation).2.WellFormed ∧ Keeps [] t (t.insert request relation).2 := by
  have hdrafted := h.linked.draft request relation
  obtain ⟨hplaced, hsame⟩ := Linked.place (hdrafted.placeable h.linked)
  obtain ⟨hcons, hnext⟩ := constraints_place (t.draft request relation).2
    (t.draft request relation).1
  rw [hdrafted.joined.constraints] at hcons
  rw [hdrafted.joined.entered] at hnext
  have hkeeps : Keeps [] t (t.placed request relation).2 :=
    hdrafted.joined.keeps.trans hsame.keeps
  refine insert_cases (p := fun result => result.2.WellFormed ∧ Keeps [] t result.2) ?_ ?_ ?_ ?_
  · exact fun _ _ _ => ⟨h, (SameVars.refl t).keeps⟩
  · exact fun _ _ _ => ⟨h.keeps hplaced hcons hnext hkeeps, hkeeps⟩
  · intro hlive _
    obtain ⟨hregistered, hkept⟩ := hplaced.register (t.draft request relation).1.constraint
    obtain ⟨hcons', hnext'⟩ := constraints_register (t.placed request relation).2
      (t.draft request relation).1.constraint
    have hall := hkeeps.trans hkept
    rw [placed, nextConstraint, hcons, hnext, ← nextConstraint] at hcons'
    rw [placed, hnext] at hnext'
    refine ⟨⟨hregistered, h.owned.insert hcons' hall ?_ ?_ hdrafted.joined.nodup ?_,
      h.numbered.insert hcons' hnext'⟩, hall⟩
    · intro v hv
      refine hkept.isLive List.not_mem_nil ((hsame.isLive_iff v).mpr ?_)
      exact (hdrafted.joined.isLive_iff v).mpr (.inl hv)
    · exact fun v hv hl => hdrafted.joined.notMem_of_isLive hl hv
    · intro v hv
      rw [hdrafted.folded_eq] at hv
      have hv := hlive v (List.mem_of_mem_filter hv)
      exact Nat.lt_of_lt_of_le (VariablePool.lt_highWater_of_isLive hv) hall.highWater_le
  · intro _ f _ _
    have hdiscard := hplaced.keeps_foldl_discard
      (t.draft request relation).1.constraint.tag.vars
    obtain ⟨hcons', hnext'⟩ := constraints_foldl_discard
      (t.draft request relation).1.constraint.tag.vars (t.placed request relation).2
    have hall : Keeps [] t (((t.draft request relation).1.constraint.tag.vars.foldl discard
        (t.placed request relation).2).count f) := by
      have hkept := (hdrafted.joined.keeps.trans hsame.keeps).trans
        (hdiscard.trans (SameVars.count f).keeps)
      exact hkept.of_forall_not_isLive fun v hv hl => hdrafted.joined.notMem_of_isLive hl hv
    refine ⟨h.keeps ((hplaced.foldl_discard _).count f) ?_ ?_ hall, hall⟩
    · rw [constraints_count, hcons', placed, hcons]
    · rw [entered_count, hnext', placed, hnext]

/-- An insertion that is accepted enters the draft's constraint under the next handle, and one
that fails enters nothing. -/
theorem Linked.constraints_insert (h : t.Linked none) (request : Request K)
    (relation : Relation) :
    (∀ id, (t.insert request relation).1 = .ok id → id = t.nextConstraint ∧
      (∀ v ∈ request.expr.vars, t.vars.isLive v) ∧
      (t.insert request relation).2.constraints =
        t.constraints.insert id (t.draft request relation).1.constraint) ∧
    ∀ fault, (t.insert request relation).1 = .error fault →
      (t.insert request relation).2.constraints = t.constraints := by
  have hdrafted := h.draft request relation
  obtain ⟨hcons, hnext⟩ := constraints_place (t.draft request relation).2
    (t.draft request relation).1
  rw [hdrafted.joined.constraints] at hcons
  rw [hdrafted.joined.entered] at hnext
  refine insert_cases (p := fun result => (∀ id, result.1 = .ok id → id = t.nextConstraint ∧
    (∀ v ∈ request.expr.vars, t.vars.isLive v) ∧ result.2.constraints =
      t.constraints.insert id (t.draft request relation).1.constraint) ∧
    ∀ fault, result.1 = .error fault → result.2.constraints = t.constraints) ?_ ?_ ?_ ?_
  · exact fun _ _ _ => ⟨fun _ hok => absurd hok (by simp), fun _ _ => rfl⟩
  · exact fun _ _ _ => ⟨fun _ hok => absurd hok (by simp), fun _ _ => hcons⟩
  · intro hlive _
    refine ⟨fun id hok => ?_, fun _ herror => absurd herror (by simp)⟩
    obtain ⟨hcons', -⟩ := constraints_register (t.placed request relation).2
      (t.draft request relation).1.constraint
    have hnextId : (t.placed request relation).2.nextConstraint = t.nextConstraint :=
      congrArg ConstraintId.nth hnext
    have hid : (t.placed request relation).2.nextConstraint = id := Except.ok.inj hok
    refine ⟨hid.symm.trans hnextId, hlive, ?_⟩
    rw [hcons', hid, placed, hcons]
  · intro _ f _ _
    refine ⟨fun _ hok => absurd hok (by simp), fun _ _ => ?_⟩
    rw [constraints_count, (constraints_foldl_discard _ _).1, placed, hcons]

/-- An insertion that is accepted moves the count of constraints on by one, and no other does. -/
theorem Linked.entered_insert (h : t.Linked none) (request : Request K) (relation : Relation) :
    (∀ id, (t.insert request relation).1 = .ok id →
      (t.insert request relation).2.entered = t.entered + 1) ∧
    ∀ fault, (t.insert request relation).1 = .error fault →
      (t.insert request relation).2.entered = t.entered := by
  have hnext := (constraints_place (t.draft request relation).2 (t.draft request relation).1).2
  rw [(h.draft request relation).joined.entered] at hnext
  refine insert_cases (p := fun result =>
    (∀ id, result.1 = .ok id → result.2.entered = t.entered + 1) ∧
    ∀ fault, result.1 = .error fault → result.2.entered = t.entered) ?_ ?_ ?_ ?_
  · exact fun _ _ _ => ⟨fun _ hok => absurd hok (by simp), fun _ _ => rfl⟩
  · exact fun _ _ _ => ⟨fun _ hok => absurd hok (by simp), fun _ _ => hnext⟩
  · refine fun _ _ => ⟨fun _ _ => ?_, fun _ herror => absurd herror (by simp)⟩
    rw [(constraints_register _ _).2, placed, hnext]
  · refine fun _ f _ _ => ⟨fun _ hok => absurd hok (by simp), fun _ _ => ?_⟩
    rw [entered_count, (constraints_foldl_discard _ _).2, placed, hnext]

/-- An insertion takes back no number. -/
theorem Linked.entered_le_insert (h : t.Linked none) (request : Request K) (relation : Relation) :
    t.entered ≤ (t.insert request relation).2.entered := by
  obtain ⟨hentered, hkept⟩ := h.entered_insert request relation
  cases hresult : (t.insert request relation).1 with
  | error fault => exact Nat.le_of_eq (hkept fault hresult).symm
  | ok id => exact hentered id hresult ▸ Nat.le_succ _

/-- Where handles have not come round after an insertion, they had not before. -/
theorem Linked.unwrapped_of_insert (h : t.Linked none) {request : Request K} {relation : Relation}
    (hroom : (t.insert request relation).2.Unwrapped) : t.Unwrapped :=
  hroom.of_le (h.entered_le_insert request relation)

end Insert

end Tableau

end LexSimplex
