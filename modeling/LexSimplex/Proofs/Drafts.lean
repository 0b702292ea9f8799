import LexSimplex.Proofs.Links.Basic
import LexSimplex.Tableau.Draft

/-!
# What a draft is made of

The variables that are made for a constraint depend on its relation, its strength and its error
terms alone. Each of them is a **part** of the draft: a variable of some kind with a coefficient.
A draft is the requested expression in terms of the tableau with its parts joined to it one
after another, and the constraint owns the variables of the parts.

## Main definitions

* `Part`, `parts`: what is made for a request.
* `Tableau.joinPart`: one part joined to a draft.
* `Tableau.Joined`: what joining parts does to a tableau.

## Main results

* `Tableau.draft_eq`: a draft consists of its parts.
* `Tableau.joined_joinParts`: the variables of the parts are new, and the others stay.
* `Tableau.Linked.draft`: making a draft keeps the links.
-/

namespace LexSimplex

variable {K Q : Type}

/-- A variable to be made for a constraint, with its coefficient. An error variable has the tier
that pays for it. -/
inductive Part (K : Type) where
  | slack (c : K)
  | marker (c : K)
  | error (s : Strength) (c : K)

namespace Part

/-- The kind of the variable. -/
def kind : Part K → Kind
  | .slack _ => .slack
  | .marker _ => .constant
  | .error _ _ => .error

/-- The coefficient of the variable. -/
def coefficient : Part K → K
  | .slack c => c
  | .marker c => c
  | .error _ c => c

/-- The part of one of the author's error terms. -/
def ofError (error : K × Strength) : Part K :=
  .error error.2 error.1

end Part

section Parts

variable [Coefficient K]

/-- The parts of an inequality whose slack has the coefficient `c`. -/
def inequalityParts (s : Strength) (c : K) : List (Part K) :=
  if s.hard then [.slack c] else [.slack c, .error s (-c)]

/-- The parts of an equality. -/
def equalityParts (s : Strength) : List (Part K) :=
  if s.hard then [.marker 1] else [.error s (-1), .error s 1]

/-- The parts that hold an expression in a relation to zero. -/
def relationParts (s : Strength) : Relation → List (Part K)
  | .eq => equalityParts s
  | .le => inequalityParts s 1
  | .ge => inequalityParts s (-1)

/-- The parts of a request. -/
def parts (request : Request K) (relation : Relation) : List (Part K) :=
  relationParts request.strength relation ++ request.errors.map Part.ofError

/-- The first part of a request has the coefficient one, or minus one. -/
theorem parts_eq_cons (request : Request K) (relation : Relation) :
    ∃ p ps, parts request relation = p :: ps ∧ (p.coefficient = 1 ∨ p.coefficient = -1) := by
  rw [parts]
  cases relation with
  | eq =>
      rw [relationParts, equalityParts]
      by_cases hs : request.strength.hard
      · rw [if_pos hs]
        exact ⟨_, _, rfl, .inl rfl⟩
      · rw [if_neg hs]
        exact ⟨_, _, rfl, .inr rfl⟩
  | le =>
      rw [relationParts, inequalityParts]
      by_cases hs : request.strength.hard
      · rw [if_pos hs]
        exact ⟨_, _, rfl, .inl rfl⟩
      · rw [if_neg hs]
        exact ⟨_, _, rfl, .inl rfl⟩
  | ge =>
      rw [relationParts, inequalityParts]
      by_cases hs : request.strength.hard
      · rw [if_pos hs]
        exact ⟨_, _, rfl, .inr rfl⟩
      · rw [if_neg hs]
        exact ⟨_, _, rfl, .inr rfl⟩

end Parts

namespace Tableau

variable {t t' : Tableau K Q} {out : Option RowId}

/-! ### Expressions in terms of a tableau -/

section Express

variable [Coefficient K] [Precision K Q]

/-- An expression in terms of a tableau has live variables that are not basic. -/
theorem Linked.express (h : t.Linked out) (e : LinExpr K) :
    (t.express e).vars.Nodup ∧
      ∀ w ∈ (t.express e).vars, t.vars.isLive w ∧ ¬t.IsBasic w := by
  suffices hfold : ∀ (terms : Assoc VarId K) (e : LinExpr K), e.vars.Nodup →
      (∀ w ∈ e.vars, t.vars.isLive w ∧ ¬t.IsBasic w) →
      (terms.foldl t.absorb e).vars.Nodup ∧
        ∀ w ∈ (terms.foldl t.absorb e).vars, t.vars.isLive w ∧ ¬t.IsBasic w from
    hfold e.terms ⟨e.constant, []⟩ List.nodup_nil fun _ hw => absurd hw List.not_mem_nil
  intro terms
  induction terms with
  | nil => exact fun e hnodup hterm => ⟨hnodup, hterm⟩
  | cons term terms ih =>
      intro e hnodup hterm
      rw [List.foldl_cons, absorb]
      cases hx : t.vars.get? term.1 with
      | none => exact ih e hnodup hterm
      | some x =>
          dsimp only
          by_cases hfold : x.isFolded
          · rw [if_pos hfold]
            exact ih _ hnodup hterm
          · rw [if_neg hfold]
            cases hdef : t.definition? term.1 with
            | none =>
                refine ih _ (LinExpr.nodup_vars_addTerm hnodup _ _) fun w hw => ?_
                by_cases hwt : w = term.1
                · rw [hwt]
                  exact ⟨VariablePool.isLive_iff.mpr ⟨x, hx⟩, h.definition?_eq_none_iff.mp hdef⟩
                · exact hterm w ((LinExpr.mem_vars_addTerm_of_ne hnodup hwt _).mp hw)
            | some r =>
                have hr := (h.definition?_eq_some_iff.mp hdef).1
                refine ih _ (LinExpr.nodup_vars_addScaled hnodup _ _) fun w hw => ?_
                rcases LinExpr.mem_or_mem_of_mem_addScaled hnodup hw with hw | hw
                · exact (h.row r hr).term w hw
                · exact hterm w hw

end Express

/-! ### What joining parts does -/

variable [Scalar Q]

/-- What **joining** the variables `vs` for the parts `ps` does to a tableau: they are new and of
the parts' kinds, and of the old variables and the rows nothing changes. -/
structure Joined (t : Tableau K Q) (ps : List (Part K)) (vs : List VarId)
    (t' : Tableau K Q) : Prop where
  kinds : vs.map t'.kind = ps.map Part.kind
  nodup : vs.Nodup
  fresh : ∀ v ∈ vs, t.vars.get? v = none
  new : ∀ v ∈ vs, ∃ x, t'.vars.get? v = some x ∧
    x.pinned = false ∧ x.computed = 0 ∧ x.folds = 0
  old : ∀ v, v ∉ vs → t'.vars.get? v = t.vars.get? v
  highWater_le : t.highWater ≤ t'.highWater
  rows : t'.rows = t.rows
  phaseOne : t'.phaseOne = t.phaseOne
  constraints : t'.constraints = t.constraints
  entered : t'.entered = t.entered

namespace Joined

variable {ps : List (Part K)} {vs : List VarId} {v : VarId}

/-- The live variables are the old ones and those of the parts. -/
theorem isLive_iff (h : t.Joined ps vs t') (v : VarId) :
    t'.vars.isLive v ↔ v ∈ vs ∨ t.vars.isLive v := by
  by_cases hv : v ∈ vs
  · obtain ⟨x, hx, -⟩ := h.new v hv
    exact iff_of_true (VariablePool.isLive_iff.mpr ⟨x, hx⟩) (.inl hv)
  · rw [VariablePool.isLive_iff, h.old v hv, ← VariablePool.isLive_iff]
    simp [hv]

/-- An old variable keeps its kind. -/
theorem kind_eq (h : t.Joined ps vs t') (hv : v ∉ vs) : t'.kind v = t.kind v := by
  rw [kind, kind, h.old v hv]

/-- A variable that is live already is not one of the parts'. -/
theorem notMem_of_isLive (h : t.Joined ps vs t') (hv : t.vars.isLive v) : v ∉ vs := by
  intro hmem
  rw [VariablePool.isLive_iff, h.fresh v hmem] at hv
  simp at hv

/-- No part has an external variable. -/
theorem kind_ne_external (h : t.Joined ps vs t') (hv : v ∈ vs) : t'.kind v ≠ .external := by
  have hmem : t'.kind v ∈ ps.map Part.kind := h.kinds ▸ List.mem_map_of_mem hv
  obtain ⟨p, -, hp⟩ := List.mem_map.mp hmem
  rw [← hp]
  cases p <;> simp [Part.kind]

/-- As many variables are made as there are parts. -/
theorem length_eq (h : t.Joined ps vs t') : vs.length = ps.length := by
  have hlength := congrArg List.length h.kinds
  rwa [List.length_map, List.length_map] at hlength

/-- Joining parts keeps every variable. -/
theorem keeps {ws : List VarId} (h : t.Joined ps vs t') :
    Keeps ws t t' := by
  refine ⟨fun v _ hlive => ?_, h.highWater_le⟩
  rw [h.old v (h.notMem_of_isLive hlive)]

end Joined

/-- Joining parts begins with the slot for the row, which concerns no variable. -/
theorem Joined.of_acquireRow {ps : List (Part K)} {vs : List VarId}
    (h : t.acquireRow.2.Joined ps vs t') : t.Joined ps vs t' := by
  obtain ⟨hkinds, hnodup, hfresh, hnew, hold, hslots, hrows, hphase, hcons, hnext⟩ := h
  rw [vars_acquireRow] at hfresh hold
  rw [highWater, vars_acquireRow] at hslots
  exact ⟨hkinds, hnodup, hfresh, hnew, hold, hslots, hrows.trans (rows_acquireRow t),
    hphase.trans (phaseOne_acquireRow t), hcons.trans (constraints_acquireRow t),
    hnext.trans (entered_acquireRow t)⟩

variable [Coefficient K]

/-- The variable of a part. -/
def makePart (t : Tableau K Q) : Part K → VarId × Tableau K Q
  | .slack _ => t.addVariable .slack none
  | .marker _ => t.addVariable .constant none
  | .error s _ => t.addError s

/-- A part joined to an expression, with its variable entered after those made before. -/
def joinPart (state : LinExpr K × List VarId × Tableau K Q) (part : Part K) :
    LinExpr K × List VarId × Tableau K Q :=
  let (e, vs, t) := state
  let (v, t) := t.makePart part
  (e.setTerm v part.coefficient, vs ++ [v], t)

/-- Parts joined to an expression. -/
def joinParts (t : Tableau K Q) (e : LinExpr K) (ps : List (Part K)) :
    LinExpr K × List VarId × Tableau K Q :=
  ps.foldl joinPart (e, [], t)

/-! ### A draft consists of its parts -/

/-- The variables made before do not matter for those that follow. -/
theorem foldl_joinPart (ps : List (Part K)) (e : LinExpr K) (vs : List VarId)
    (t : Tableau K Q) :
    ps.foldl joinPart (e, vs, t) =
      ((t.joinParts e ps).1, vs ++ (t.joinParts e ps).2.1, (t.joinParts e ps).2.2) := by
  induction ps generalizing e vs t with
  | nil => simp [joinParts]
  | cons p ps ih =>
      have hstep : ∀ vs, (p :: ps).foldl joinPart (e, vs, t) =
          ps.foldl joinPart (e.setTerm (t.makePart p).1 p.coefficient,
            vs ++ [(t.makePart p).1], (t.makePart p).2) :=
        fun _ => rfl
      rw [joinParts, hstep, hstep, ih, ih _ ([] ++ _)]
      simp

/-- The first part comes before the others. -/
theorem joinParts_cons (t : Tableau K Q) (e : LinExpr K) (p : Part K) (ps : List (Part K)) :
    t.joinParts e (p :: ps) =
      (((t.makePart p).2.joinParts (e.setTerm (t.makePart p).1 p.coefficient) ps).1,
        (t.makePart p).1 ::
          ((t.makePart p).2.joinParts (e.setTerm (t.makePart p).1 p.coefficient) ps).2.1,
        ((t.makePart p).2.joinParts (e.setTerm (t.makePart p).1 p.coefficient) ps).2.2) :=
  foldl_joinPart ps _ [_] _

/-- Parts may be joined in two goes. -/
theorem joinParts_append (t : Tableau K Q) (e : LinExpr K) (ps qs : List (Part K)) :
    t.joinParts e (ps ++ qs) =
      (((t.joinParts e ps).2.2.joinParts (t.joinParts e ps).1 qs).1,
        (t.joinParts e ps).2.1 ++ ((t.joinParts e ps).2.2.joinParts (t.joinParts e ps).1 qs).2.1,
        ((t.joinParts e ps).2.2.joinParts (t.joinParts e ps).1 qs).2.2) := by
  rw [joinParts, List.foldl_append]
  exact foldl_joinPart qs _ _ _

/-- The author's error terms are parts. -/
theorem foldl_addExtra (errors : List (K × Strength)) (e : LinExpr K) (tag : Tag)
    (t : Tableau K Q) :
    errors.foldl addExtra (e, tag, t) =
      ((t.joinParts e (errors.map Part.ofError)).1,
        { tag with extra := tag.extra ++ (t.joinParts e (errors.map Part.ofError)).2.1 },
        (t.joinParts e (errors.map Part.ofError)).2.2) := by
  induction errors generalizing e tag t with
  | nil => simp [joinParts]
  | cons error errors ih =>
      have hjoin : t.joinParts e ((error :: errors).map Part.ofError) =
          (errors.map Part.ofError).foldl joinPart
            (e.setTerm (t.addError error.2).1 error.1, [(t.addError error.2).1],
              (t.addError error.2).2) :=
        rfl
      rw [List.foldl_cons, addExtra, ih, hjoin, foldl_joinPart]
      simp

/-- The equation of a relation has the parts of the relation, and they are the first variables
of its tag. -/
theorem close_eq (t : Tableau K Q) (e : LinExpr K) (s : Strength) (relation : Relation) :
    ∃ tag : Tag, t.close e s relation =
        ((t.joinParts e (relationParts s relation)).1, tag,
          (t.joinParts e (relationParts s relation)).2.2) ∧
      tag.vars = (t.joinParts e (relationParts s relation)).2.1 ∧ tag.extra = [] ∧
      tag.other.isNone = s.hard := by
  cases relation with
  | eq =>
      rw [close, closeEquality, relationParts, equalityParts]
      cases hs : s.hard with
      | true => exact ⟨⟨(t.addVariable .constant none).1, none, [], []⟩, rfl, rfl, rfl, rfl⟩
      | false =>
          exact ⟨⟨(t.addError s).1, some ((t.addError s).2.addError s).1, [], []⟩,
            rfl, rfl, rfl, rfl⟩
  | le =>
      rw [close, closeInequality, relationParts, inequalityParts]
      cases hs : s.hard with
      | true => exact ⟨⟨(t.addVariable .slack none).1, none, [], []⟩, rfl, rfl, rfl, rfl⟩
      | false =>
          exact ⟨⟨(t.addVariable .slack none).1,
            some ((t.addVariable .slack none).2.addError s).1, [], []⟩, rfl, rfl, rfl, rfl⟩
  | ge =>
      rw [close, closeInequality, relationParts, inequalityParts]
      cases hs : s.hard with
      | true => exact ⟨⟨(t.addVariable .slack none).1, none, [], []⟩, rfl, rfl, rfl, rfl⟩
      | false =>
          exact ⟨⟨(t.addVariable .slack none).1,
            some ((t.addVariable .slack none).2.addError s).1, [], []⟩, rfl, rfl, rfl, rfl⟩

/-- The variable of a part is new and the others stay, also where the goal pays for it. -/
theorem get?_makePart (t : Tableau K Q) (p : Part K) :
    ∃ name penalty, ∀ w, (t.makePart p).2.vars.get? w =
      if w = (t.makePart p).1 then
        some { Variable.fresh (t.makePart p).1 p.kind name with penalty }
      else t.vars.get? w := by
  cases p with
  | slack c =>
      obtain ⟨name, hget⟩ := t.get?_addVariable .slack none
      exact ⟨name, none, hget⟩
  | marker c =>
      obtain ⟨name, hget⟩ := t.get?_addVariable .constant none
      exact ⟨name, none, hget⟩
  | error s c =>
      obtain ⟨name, hget⟩ := t.get?_addVariable .error none
      refine ⟨name, some s, fun w => ?_⟩
      have hmodify := VariablePool.get?_modify (t.addVariable .error none).2.vars
        (t.addVariable .error none).1 (fun x => { x with penalty := some s }) w
      have hfst : (t.makePart (.error s c)).1 = (t.addVariable .error none).1 := rfl
      refine hmodify.trans ?_
      rw [hget, hfst]
      by_cases hw : w = (t.addVariable .error none).1
      · rw [if_pos hw, if_pos hw, if_pos hw, Option.map_some]
        rfl
      · rw [if_neg hw, if_neg hw, if_neg hw]

/-- Nothing is found beforehand at the handle of the variable that a part makes. -/
theorem get?_makePart_fst (t : Tableau K Q) (p : Part K) :
    t.vars.get? (t.makePart p).1 = none := by
  cases p with
  | slack c => exact t.get?_addVariable_fst .slack none
  | marker c => exact t.get?_addVariable_fst .constant none
  | error s c => exact t.get?_addVariable_fst .error none

/-- Making a part does not lower the mark. -/
theorem highWater_le_makePart (t : Tableau K Q) (p : Part K) :
    t.highWater ≤ (t.makePart p).2.highWater := by
  cases p with
  | slack c => exact highWater_le_addVariable _ _ _
  | marker c => exact highWater_le_addVariable _ _ _
  | error s c =>
      exact Nat.le_trans (highWater_le_addVariable t .error none)
        (Nat.le_of_eq (Pool.highWater_modify _ _ _).symm)

/-- Making a part leaves the rows. -/
theorem rows_makePart (t : Tableau K Q) (p : Part K) : (t.makePart p).2.rows = t.rows := by
  cases p <;> exact rows_addVariable _ _ _

/-- Making a part leaves the objective of phase one. -/
theorem phaseOne_makePart (t : Tableau K Q) (p : Part K) :
    (t.makePart p).2.phaseOne = t.phaseOne := by
  cases p <;> exact phaseOne_addVariable _ _ _

/-- Making a part leaves the constraints. -/
theorem constraints_makePart (t : Tableau K Q) (p : Part K) :
    (t.makePart p).2.constraints = t.constraints := by
  cases p <;> exact constraints_addVariable _ _ _

/-- Making a part enters no constraint. -/
theorem entered_makePart (t : Tableau K Q) (p : Part K) :
    (t.makePart p).2.entered = t.entered := by
  cases p <;> exact entered_addVariable _ _ _

/-- One more part comes first. -/
theorem Joined.cons {p : Part K} {ps : List (Part K)} {vs : List VarId}
    (h : (t.makePart p).2.Joined ps vs t') : t.Joined (p :: ps) ((t.makePart p).1 :: vs) t' := by
  obtain ⟨name, penalty, hget⟩ := t.get?_makePart p
  have hlive := hget (t.makePart p).1
  rw [if_pos rfl] at hlive
  have hnotMem : (t.makePart p).1 ∉ vs := by
    intro hmem
    rw [h.fresh _ hmem] at hlive
    exact absurd hlive (by simp)
  have hstay := (h.old _ hnotMem).trans hlive
  refine ⟨?_, List.nodup_cons.mpr ⟨hnotMem, h.nodup⟩, ?_, ?_, ?_,
    Nat.le_trans (highWater_le_makePart t p) h.highWater_le, h.rows.trans (rows_makePart t p),
    h.phaseOne.trans (phaseOne_makePart t p), h.constraints.trans (constraints_makePart t p),
    h.entered.trans (entered_makePart t p)⟩
  · rw [List.map_cons, List.map_cons, h.kinds, kind_of_get? hstay]
    rfl
  · intro v hv
    rcases List.mem_cons.mp hv with rfl | hv
    · exact t.get?_makePart_fst p
    · have hfresh := h.fresh v hv
      rwa [hget, if_neg (ne_of_mem_of_not_mem hv hnotMem)] at hfresh
  · intro v hv
    rcases List.mem_cons.mp hv with rfl | hv
    · exact ⟨_, hstay, rfl, rfl, rfl⟩
    · exact h.new v hv
  · intro v hv
    rw [List.mem_cons, not_or] at hv
    rw [h.old v hv.2, hget, if_neg hv.1]

/-- Joining parts does to a tableau what is said of it. -/
theorem joined_joinParts (t : Tableau K Q) (e : LinExpr K) (ps : List (Part K)) :
    t.Joined ps (t.joinParts e ps).2.1 (t.joinParts e ps).2.2 := by
  induction ps generalizing t e with
  | nil =>
      exact ⟨rfl, List.nodup_nil, fun _ hv => absurd hv List.not_mem_nil,
        fun _ hv => absurd hv List.not_mem_nil, fun _ _ => rfl, Nat.le_refl _,
        rfl, rfl, rfl, rfl⟩
  | cons p ps ih =>
      rw [joinParts_cons]
      exact (ih _ _).cons

/-- The variables of the parts have their terms, and the others keep theirs. -/
theorem mem_vars_joinParts (t : Tableau K Q) {e : LinExpr K} (h : e.vars.Nodup)
    (ps : List (Part K)) :
    (t.joinParts e ps).1.vars.Nodup ∧
      ∀ w, w ∈ (t.joinParts e ps).1.vars → w ∈ (t.joinParts e ps).2.1 ∨ w ∈ e.vars := by
  induction ps generalizing t e with
  | nil => exact ⟨h, fun _ hw => .inr hw⟩
  | cons p ps ih =>
      obtain ⟨hnodup, hmem⟩ := ih (t.makePart p).2
        (LinExpr.nodup_vars_setTerm h (t.makePart p).1 p.coefficient)
      rw [joinParts_cons]
      refine ⟨hnodup, fun w hw => ?_⟩
      rcases hmem w hw with hw | hw
      · exact .inl (List.mem_cons_of_mem _ hw)
      · by_cases hwv : w = (t.makePart p).1
        · exact .inl (List.mem_cons.mpr (.inl hwv))
        · exact .inr ((LinExpr.mem_vars_setTerm_of_ne h hwv _).mp hw)

/-- The variable of a part is new. -/
theorem makePart_notMem (t : Tableau K Q) {e : LinExpr K} (hlive : ∀ w ∈ e.vars, t.vars.isLive w)
    (p : Part K) : (t.makePart p).1 ∉ e.vars := by
  intro hmem
  obtain ⟨x, hx⟩ := VariablePool.isLive_iff.mp (hlive _ hmem)
  rw [t.get?_makePart_fst p] at hx
  exact absurd hx (by simp)

/-- An expression to which a part was joined has live variables. -/
theorem isLive_setTerm {e : LinExpr K} (he : e.vars.Nodup) (hlive : ∀ w ∈ e.vars, t.vars.isLive w)
    (p : Part K) : ∀ w ∈ (e.setTerm (t.makePart p).1 p.coefficient).vars,
      (t.makePart p).2.vars.isLive w := by
  intro w hw
  obtain ⟨name, penalty, hget⟩ := t.get?_makePart p
  rw [VariablePool.isLive_iff, hget]
  rcases eq_or_ne w (t.makePart p).1 with hwp | hwp
  · exact ⟨_, if_pos hwp⟩
  · rw [if_neg hwp, ← VariablePool.isLive_iff]
    exact hlive w ((LinExpr.mem_vars_setTerm_of_ne he hwp _).mp hw)

/-- Joined parts keep the terms that were there. -/
theorem mem_joinParts_of_mem (t : Tableau K Q) {e : LinExpr K} (he : e.vars.Nodup)
    (hlive : ∀ w ∈ e.vars, t.vars.isLive w) (ps : List (Part K)) :
    ∀ w ∈ e.vars, w ∈ (t.joinParts e ps).1.vars := by
  induction ps generalizing t e with
  | nil => exact fun _ hw => hw
  | cons p ps ih =>
      intro w hw
      have hne := ne_of_mem_of_not_mem hw (t.makePart_notMem hlive p)
      rw [joinParts_cons]
      exact ih _ (LinExpr.nodup_vars_setTerm he _ _) (isLive_setTerm he hlive p) w
        ((LinExpr.mem_vars_setTerm_of_ne he hne _).mpr hw)

/-- The variable of the first part has a term, unless its coefficient is negligible. -/
theorem mem_joinParts (t : Tableau K Q) {e : LinExpr K} (he : e.vars.Nodup)
    (hlive : ∀ w ∈ e.vars, t.vars.isLive w) {p : Part K}
    (hp : ¬Coefficient.negligible p.coefficient) (ps : List (Part K)) :
    ∃ v vs, (t.joinParts e (p :: ps)).2.1 = v :: vs ∧ v ∈ (t.joinParts e (p :: ps)).1.vars := by
  rw [joinParts_cons]
  refine ⟨_, _, rfl, ?_⟩
  exact mem_joinParts_of_mem _ (LinExpr.nodup_vars_setTerm he _ _) (isLive_setTerm he hlive p) ps _
    (LinExpr.mem_vars_setTerm e _ hp)

/-! ### Drafts -/

/-- The requested expression in terms of the tableau, with the parts of the request joined. -/
def joined (t : Tableau K Q) [Precision K Q] (request : Request K) (relation : Relation) :
    LinExpr K × List VarId × Tableau K Q :=
  t.acquireRow.2.joinParts (t.express request.expr) (parts request relation)

/-- An expression with the sign that makes its constant not negative. -/
def orient (e : LinExpr K) : LinExpr K :=
  if e.constant < 0 then e.negate else e

/-- A draft consists of its parts. -/
theorem draft_eq [Precision K Q] (t : Tableau K Q) (request : Request K)
    (relation : Relation) :
    ∃ tag : Tag, t.draft request relation =
        (⟨t.acquireRow.1, orient (t.joined request relation).1,
          ⟨request, relation, t.valuesIn request.expr, tag⟩⟩, (t.joined request relation).2.2) ∧
      tag.vars = (t.joined request relation).2.1 ∧ tag.folded = t.pinnedIn request.expr ∧
      tag.other.isNone = request.strength.hard ∧ tag.extra.length = request.errors.length := by
  obtain ⟨tag, hclose, hvars, hextra, hother⟩ :=
    t.acquireRow.2.close_eq (t.express request.expr) request.strength relation
  rw [joined, parts, joinParts_append]
  set first := t.acquireRow.2.joinParts (t.express request.expr)
    (relationParts request.strength relation) with hfirst
  set second := first.2.2.joinParts first.1 (request.errors.map Part.ofError) with hsecond
  refine ⟨{ tag with extra := second.2.1, folded := t.pinnedIn request.expr }, ?_, ?_, rfl,
    hother, ?_⟩
  · have hfold := foldl_addExtra request.errors first.1 tag first.2.2
    rw [← hsecond, hextra, List.nil_append] at hfold
    simp only [draft, hclose, hfold]
    rfl
  · rw [← hvars]
    simp [Tag.vars, hextra]
  · have hlength := (first.2.2.joined_joinParts first.1
      (request.errors.map Part.ofError)).length_eq
    rwa [List.length_map] at hlength


/-! ### Links -/

/-- An error variable keeps the links: its term in the goal is its own. -/
theorem Linked.addError (h : t.Linked out) (s : Strength) : (t.addError s).2.Linked out := by
  have hnew := (h.addVariable .error none).modifyVar (t.addVariable .error none).1
    (f := fun x => { x with penalty := some s }) fun _ => rfl
  refine hnew.withGoal ?_
  have hgoal := hnew.goal _ List.mem_cons_self
  have habs : ¬(t.addVariable .error none).2.IsBasic (t.addVariable .error none).1 := by
    rintro ⟨r, hr, hb⟩
    rw [rows_addVariable] at hr
    have hlive := (h.row r hr).basic_isLive
    rw [hb, VariablePool.isLive_iff, t.get?_addVariable_fst] at hlive
    simp at hlive
  refine ⟨hgoal.tidy.addTerm _ _ _, fun w hw => ?_⟩
  by_cases hwv : w = (t.addVariable .error none).1
  · obtain ⟨name, hget⟩ := t.get?_addVariable .error none
    refine ⟨?_, hwv ▸ habs⟩
    rw [VariablePool.isLive_iff, hwv]
    have hmodify := VariablePool.get?_modify (t.addVariable .error none).2.vars
      (t.addVariable .error none).1 (fun x => { x with penalty := some s })
      (t.addVariable .error none).1
    rw [if_pos rfl, hget, if_pos rfl] at hmodify
    exact ⟨_, hmodify⟩
  · exact hgoal.term w ((hgoal.tidy.mem_vars_addTerm_of_ne hwv _ _).mp hw)

/-- Making a part keeps the links. -/
theorem Linked.makePart (h : t.Linked out) (p : Part K) : (t.makePart p).2.Linked out := by
  cases p with
  | slack c => exact h.addVariable .slack none
  | marker c => exact h.addVariable .constant none
  | error s c => exact h.addError s

/-- Joining parts keeps the links. -/
theorem Linked.joinParts (h : t.Linked out) (e : LinExpr K) (ps : List (Part K)) :
    (t.joinParts e ps).2.2.Linked out := by
  induction ps generalizing t e with
  | nil => exact h
  | cons p ps ih =>
      rw [joinParts_cons]
      exact ih (h.makePart p) _

/-- What the goal speaks of after parts were joined, it spoke of before, or it pays for it. -/
theorem Linked.mem_goal_joinParts (h : t.Linked out) (e : LinExpr K) (ps : List (Part K)) :
    ∀ w ∈ (t.joinParts e ps).2.2.goal.vars,
      w ∈ t.goal.vars ∨ (t.joinParts e ps).2.2.kind w = .error := by
  induction ps generalizing t e with
  | nil => exact fun w hw => .inl hw
  | cons p ps ih =>
      intro w hw
      have hjoined := t.joined_joinParts e (p :: ps)
      rw [joinParts_cons] at hw hjoined ⊢
      rcases ih (h.makePart p) _ w hw with hw | hw
      · cases p with
        | slack c =>
            rw [Tableau.makePart, goal_addVariable] at hw
            exact .inl hw
        | marker c =>
            rw [Tableau.makePart, goal_addVariable] at hw
            exact .inl hw
        | error s c =>
            by_cases hwv : w = (t.makePart (.error s c)).1
            · have hkinds := (List.cons.inj hjoined.kinds).1
              exact .inr (hwv ▸ hkinds)
            · have hgoal := h.goal t.goal List.mem_cons_self
              have hadd : (t.makePart (.error s c)).2.goal =
                  t.goal.addTerm (t.makePart (.error s c)).1 (TierVector.unit s) 1 :=
                congrArg (fun g : Goal K => g.addTerm _ _ _) (goal_addVariable t .error none)
              rw [hadd] at hw
              exact .inl ((hgoal.tidy.mem_vars_addTerm_of_ne hwv _ _).mp hw)
      · exact .inr hw

/-- Giving an equation the sign of its constant leaves its variables. -/
@[simp] theorem vars_orient (e : LinExpr K) : (orient e).vars = e.vars := by
  rw [orient]
  by_cases he : e.constant < 0
  · rw [if_pos he, LinExpr.vars_negate]
  · rw [if_neg he]

variable [Precision K Q]

/-- What a **draft** of a request consists of: new variables for its parts, and an equation of
live variables that are not basic, with the slot of its row still empty. -/
structure Drafted (t : Tableau K Q) (request : Request K) (relation : Relation) (d : Draft K)
    (t' : Tableau K Q) : Prop where
  joined : t.Joined (parts request relation) d.constraint.tag.vars t'
  linked : t'.Linked (some d.row)
  nodup : d.expr.vars.Nodup
  term : ∀ w ∈ d.expr.vars, t'.vars.isLive w ∧ ¬t'.IsBasic w
  goal : ∀ w ∈ t'.goal.vars, w ∈ t.goal.vars ∨ t'.kind w = .error
  request_eq : d.constraint.request = request
  relation_eq : d.constraint.relation = relation
  values_eq : d.constraint.values = t.valuesIn request.expr
  folded_eq : d.constraint.tag.folded = t.pinnedIn request.expr

/-- The draft of a request is one. -/
theorem Linked.draft (h : t.Linked none) (request : Request K) (relation : Relation) :
    t.Drafted request relation (t.draft request relation).1 (t.draft request relation).2 := by
  obtain ⟨tag, hdraft, hvars, hfolded, -, -⟩ := t.draft_eq request relation
  obtain ⟨hnodup, hterm⟩ := h.express request.expr
  have hjoined : t.Joined (parts request relation) tag.vars (t.joined request relation).2.2 :=
    hvars ▸ (joined_joinParts t.acquireRow.2 _ _).of_acquireRow
  obtain ⟨hunique, hmem⟩ :=
    t.acquireRow.2.mem_vars_joinParts hnodup (parts request relation)
  rw [hdraft]
  refine ⟨hjoined, h.acquireRow.joinParts _ _, ?_, fun w hw => ?_, fun w hw => ?_, rfl, rfl,
    rfl, hfolded⟩
  · rw [vars_orient]
    exact hunique
  · rw [vars_orient] at hw
    rw [hjoined.isLive_iff, isBasic_congr hjoined.rows]
    rcases hmem w hw with hw | hw
    · have hown : w ∈ tag.vars := hvars ▸ hw
      refine ⟨.inl hown, fun hb => ?_⟩
      exact hjoined.notMem_of_isLive (h.isLive_of_isBasic hb) hown
    · exact ⟨.inr (hterm w hw).1, (hterm w hw).2⟩
  · have hgoal := h.acquireRow.mem_goal_joinParts _ _ w hw
    rwa [goal_acquireRow] at hgoal

/-- The marker of a draft has a term, where neither one nor minus one is negligible. -/
theorem Linked.marker_mem_draft (h : t.Linked none) (hone : ¬Coefficient.negligible (1 : K))
    (hneg : ¬Coefficient.negligible (-1 : K)) (request : Request K) (relation : Relation) :
    (t.draft request relation).1.constraint.tag.marker ∈
      (t.draft request relation).1.expr.vars := by
  obtain ⟨tag, hdraft, hvars, -⟩ := t.draft_eq request relation
  obtain ⟨p, ps, hparts, hp⟩ := parts_eq_cons request relation
  obtain ⟨hnodup, hterm⟩ := h.express request.expr
  have hlive : ∀ w ∈ (t.express request.expr).vars, t.acquireRow.2.vars.isLive w := by
    intro w hw
    rw [vars_acquireRow]
    exact (hterm w hw).1
  have hcoefficient : ¬Coefficient.negligible p.coefficient := by
    rcases hp with hp | hp
    · rwa [hp]
    · rwa [hp]
  obtain ⟨v, vs, heq, hmem⟩ := mem_joinParts t.acquireRow.2 hnodup hlive hcoefficient ps
  rw [hdraft]
  rw [joined, hparts, heq] at hvars
  rw [vars_orient, joined, hparts, (List.cons.inj hvars).1]
  exact hmem

end Tableau

end LexSimplex
