import Mathlib.Logic.Relation
import LexSimplex.Proofs.FoldCounts

/-!
# Where variables are fixed

A constraint has the values of pinned variables as numbers. While it is there, such a variable is
pinned or held, and what it is fixed at does not change: another value is refused, one that the
arithmetic takes for equal may replace it, and a variable that is unpinned is held where it was.

This needs a caller who pins only own variables and draws up requests in which no variable occurs
twice. What is said here holds in any arithmetic.

## Main definitions

* `Scalar.Same`: two quantities that the arithmetic takes for equal, one after another.
* `Solver.fixture`, `Solver.FixedAt`: the value at which a variable is fixed.
* `Solver.Tracked`: what was folded in is fixed, and the variables of the solver's own are at zero.

## Main results

* `Solver.Booked.fixture_move`: a move leaves a variable that is folded in somewhere fixed where it
  was.
* `Solver.Tracked.move`, `Session.Run.tracked`: what was folded in stays fixed.
-/

namespace LexSimplex

variable {K Q : Type}

/-- Two quantities are **the same** if a chain of quantities leads from the one to the other of
which the arithmetic takes each for equal to the next. It may take two zeros of different sign for
equal. -/
def Scalar.Same [Scalar Q] (x y : Q) : Prop :=
  Relation.EqvGen (fun a b : Q => a == b) x y

namespace Scalar.Same

variable [Scalar Q] {x y z : Q}

/-- A value is the same as itself. -/
theorem refl (x : Q) : Same x x :=
  Relation.EqvGen.refl x

/-- Being the same goes both ways. -/
theorem symm (h : Same x y) : Same y x :=
  Relation.EqvGen.symm x y h

/-- Being the same is transitive. -/
theorem trans (h : Same x y) (h' : Same y z) : Same x z :=
  Relation.EqvGen.trans x y z h h'

/-- Equal values are the same. -/
theorem of_beq (h : x == y) : Same x y :=
  Relation.EqvGen.rel x y h

end Scalar.Same

/-! ### Variables of a changed tableau -/

namespace Tableau

variable {t : Tableau K Q} {v w : VarId} {y' : Variable Q}

/-- A constant is live. -/
theorem get?_of_kind_eq_constant (hk : t.kind v = .constant) :
    ∃ y, t.vars.get? v = some y ∧ y.kind = .constant := by
  cases hy : t.vars.get? v with
  | none =>
      rw [kind, hy] at hk
      exact absurd hk (by simp)
  | some y => exact ⟨y, rfl, (kind_of_get? hy).symm.trans hk⟩

/-- A variable of a tableau in which one was flagged is what it was, or it is the flagged one. -/
theorem of_get?_modifyVar (f : Variable Q → Variable Q)
    (hy' : (t.modifyVar w f).vars.get? v = some y') :
    ∃ y, t.vars.get? v = some y ∧ (y' = y ∨ v = w ∧ y' = f y) := by
  rw [get?_modifyVar] at hy'
  split at hy'
  · rename_i hvw
    obtain ⟨y, hy, rfl⟩ := Option.map_eq_some_iff.mp hy'
    exact ⟨y, hy, .inr ⟨hvw, rfl⟩⟩
  · exact ⟨y', hy', .inl rfl⟩

/-- A variable of a tableau in which a flag was taken back is of the kind and value that it was. -/
theorem of_get?_unpin (hy' : (t.modifyVar w Variable.unpin).vars.get? v = some y') :
    ∃ y, t.vars.get? v = some y ∧ y'.kind = y.kind ∧ y'.computed = y.computed := by
  obtain ⟨y, hy, rfl | ⟨-, rfl⟩⟩ := of_get?_modifyVar Variable.unpin hy'
  · exact ⟨_, hy, rfl, rfl⟩
  · exact ⟨y, hy, rfl, rfl⟩

end Tableau

variable [Coefficient K] [Scalar Q]

/-! ### Values in a constraint -/

section Values

variable [Precision K Q] {t t' : Tableau K Q} {v : VarId} {c : Constraint K} {y : K}

/-- A value that a constraint took in is that of a variable, which keeps it. The variable was pinned
if it is listed as folded, and is a constant if it is not. -/
theorem Tableau.Entered.of_values (hc : t.Entered c t') (hy : c.values.get? v = some y) :
    ∃ x x', t.vars.get? v = some x ∧ t'.vars.get? v = some x' ∧ x'.computed = x.computed ∧
      y = Precision.widen x.computed ∧ (v ∈ c.tag.folded → x.pinned) ∧
      (v ∉ c.tag.folded → x.kind = .constant) := by
  have hmem : (v, y) ∈ c.values := by
    obtain ⟨l, l', heq, -⟩ := List.lookup_eq_some_iff.mp hy
    rw [heq]
    simp
  rw [hc.values_eq, valuesIn, List.mem_filterMap] at hmem
  obtain ⟨w, hw, hmap⟩ := hmem
  obtain ⟨x, hx, heq⟩ := Option.map_eq_some_iff.mp hmap
  obtain ⟨rfl, rfl⟩ := Prod.mk.inj heq
  obtain ⟨hget, hfolded⟩ := Option.filter_eq_some_iff.mp hx
  obtain ⟨x', hx', hcore⟩ := hc.grown.old w x hget
  have hlisted : w ∈ c.tag.folded ↔ x.pinned := by
    rw [hc.folded_eq, pinnedIn, List.mem_filter, hget]
    exact and_iff_right hw
  refine ⟨x, x', hget, hx', (congrArg Variable.computed hcore :), rfl, hlisted.mp, fun hnot => ?_⟩
  rw [Variable.isFolded, Bool.or_eq_true, decide_eq_true_eq] at hfolded
  exact hfolded.resolve_left (mt hlisted.mpr hnot)

end Values

namespace Solver

variable {own : VarId → Prop} {s s' : Solver K Q} {v w : VarId} {id : ConstraintId}
  {c : Constraint K} {x : Q}

/-- The value at which a variable is **fixed**: the one at which it is held, or else its own. -/
def fixture (s : Solver K Q) (v : VarId) : Option Q :=
  match s.holds.get? v with
  | some hold => some hold.value
  | none => (s.tableau.vars.get? v).map Variable.computed

omit [Coefficient K] [Scalar Q] in

/-- A held variable is fixed at the value of its hold. -/
theorem fixture_of_holds {hold : Hold Q} (h : s.holds.get? v = some hold) :
    s.fixture v = some hold.value := by
  rw [fixture, h]

omit [Coefficient K] [Scalar Q] in

/-- A variable that is not held is fixed at its computed value. -/
theorem fixture_of_not_held {y : Variable Q} (h : s.holds.get? v = none)
    (hy : s.tableau.vars.get? v = some y) : s.fixture v = some y.computed := by
  rw [fixture, h, hy]
  rfl

omit [Coefficient K] [Scalar Q] in
/-- A variable is fixed where it was if it is held where it was, or neither before nor now and has
the same value. -/
theorem fixture_congr (hholds : s'.holds.get? v = s.holds.get? v)
    (hcomputed : s.holds.get? v = none → (s'.tableau.vars.get? v).map Variable.computed =
      (s.tableau.vars.get? v).map Variable.computed) : s'.fixture v = s.fixture v := by
  rw [fixture, fixture, hholds]
  cases hhold : s.holds.get? v with
  | some hold => rfl
  | none => exact hcomputed hhold

omit [Coefficient K] [Scalar Q] in
/-- A flag that does not change the value of its variable changes no value. -/
theorem computed_modifyVar {t : Tableau K Q} {f : Variable Q → Variable Q}
    (hf : ∀ y, t.vars.get? w = some y → (f y).computed = y.computed) (v : VarId) :
    ((t.modifyVar w f).vars.get? v).map Variable.computed =
      (t.vars.get? v).map Variable.computed := by
  rw [Tableau.get?_modifyVar]
  split
  · rename_i hvw
    subst hvw
    cases hy : t.vars.get? v with
    | none => rfl
    | some y => exact congrArg some (hf y hy)
  · rfl

variable [Precision K Q] {a : Act K Q}

/-- A constraint that is entered leaves the computed values of live variables. -/
theorem computed_enter {t t' : Tableau K Q} (hc : t.Entered c t')
    (hv : t.vars.isLive v) :
    (t'.vars.get? v).map Variable.computed = (t.vars.get? v).map Variable.computed := by
  obtain ⟨y, hy⟩ := VariablePool.isLive_iff.mp hv
  obtain ⟨y', hy', hcore⟩ := hc.grown.old v y hy
  rw [hy, hy', Option.map_some, Option.map_some]
  exact congrArg some (congrArg Variable.computed hcore :)

/-- A variable of the caller that is folded in somewhere is **fixed** after a move at what it was
fixed at, or at the same. Most moves leave it fixed where it was; one that becomes held is held at
the value that it had. -/
theorem Booked.fixture_move (h : s.Booked own) (hs : s.Annotated) (hmove : s.Move a s')
    (hown : own v) (hidle : ¬s.isIdle v) (hx : s.fixture v = some x) :
    ∃ x', s'.fixture v = some x' ∧ Scalar.Same x x' := by
  have hlive := h.counted.isLive v hown
  obtain ⟨y, hy⟩ := VariablePool.isLive_iff.mp hlive
  have hkept : s'.fixture v = s.fixture v → ∃ x', s'.fixture v = some x' ∧ Scalar.Same x x' :=
    fun heq => ⟨x, heq.trans hx, .refl x⟩
  have hheld : ∀ {y' : Variable Q} {id : ConstraintId}, v ∈ s.pins.keys →
      s.tableau.vars.get? v = some y' → s'.holds = s.holds.insert v ⟨id, y'.computed⟩ →
      ∃ x', s'.fixture v = some x' ∧ Scalar.Same x x' := by
    intro y' id hpin hy' hholds
    have hnone : s.holds.get? v = none := Assoc.get?_eq_none_iff.mpr (hs.disjoint v hpin)
    refine hkept ?_
    rw [fixture_of_not_held hnone hy']
    exact fixture_of_holds (by rw [hholds, Assoc.get?_insert, if_pos rfl])
  cases hmove with
  | quiet ht _ hholds =>
      refine hkept (fixture_congr (by rw [hholds]) fun hnone => ?_)
      have hpin : v ∈ s.pins.keys := (not_not.mp (mt (h.idle v) hidle)).resolve_right
        (Assoc.get?_eq_none_iff.mp hnone)
      obtain ⟨y', hy', -, -, -, hcomputed⟩ := ht.old v y hy
      rw [hy, hy', Option.map_some, Option.map_some, hcomputed (.inr (h.flagged v hpin y hy))]
  | enter _ hc => exact hkept (fixture_congr rfl fun _ => computed_enter hc hlive)
  | remove _ hc =>
      refine hkept (fixture_congr rfl fun _ => ?_)
      obtain ⟨y', hy', hcore⟩ := (hs.wellFormed.withdrawn hc).old v y
        (fun hmem => h.counted.apart _ _ hc v hmem hown) hy
      rw [hy]
      exact (congrArg _ hy').trans (congrArg some (congrArg Variable.computed hcore :))
  | @note w z hidden _ _ hidle' _ =>
      have hne : v ≠ w := fun heq => hidle (heq ▸ hidle')
      refine hkept (fixture_congr rfl fun _ => ?_)
      rw [notePin, Tableau.get?_modifyVar, if_neg hne]
  | @take w hold z _ hhold hz =>
      rcases eq_or_ne v w with rfl | hne
      · obtain rfl : hold.value = x :=
          Option.some.inj ((fixture_of_holds hhold).symm.trans hx)
        refine ⟨z, ?_, (Scalar.Same.of_beq hz).symm⟩
        refine fixture_of_not_held (y := y.pin z) ?_ ?_
        · exact (Assoc.get?_erase _ _ _).trans (if_pos rfl)
        · rw [notePin, Tableau.get?_modifyVar, if_pos rfl, hy]
          rfl
      · refine hkept (fixture_congr ((Assoc.get?_erase _ _ _).trans (if_neg hne)) fun _ => ?_)
        rw [notePin, Tableau.get?_modifyVar, if_neg hne]
  | @flag w z _ hz =>
      refine hkept (fixture_congr rfl fun _ =>
        computed_modifyVar (f := (·.pin z.computed)) (fun z' hz' => ?_) v)
      obtain rfl : z = z' := Option.some.inj (hz.symm.trans hz')
      rfl
  | free _ =>
      exact hkept (fixture_congr rfl fun _ =>
        computed_modifyVar (f := Variable.unpin) (fun _ _ => rfl) v)
  | @drop w hidle' =>
      have hne : v ≠ w := fun heq => hidle (heq ▸ hidle')
      exact hkept (fixture_congr ((Assoc.get?_erase _ _ _).trans (if_neg hne)) fun _ => rfl)
  | @keep w z id hpin hz _ =>
      rcases eq_or_ne v w with rfl | hne
      · exact hheld (Assoc.mem_keys_of_get? hpin) hz rfl
      · exact hkept (fixture_congr ((Assoc.get?_insert _ _ _ _).trans (if_neg hne)) fun _ =>
          computed_modifyVar (f := Variable.unpin) (fun _ _ => rfl) v)
  | @enterHold w z c t' hpin hz _ hc _ =>
      rcases eq_or_ne v w with rfl | hne
      · exact hheld (Assoc.mem_keys_of_get? hpin) hz rfl
      · refine hkept (fixture_congr ((Assoc.get?_insert _ _ _ _).trans (if_neg hne)) fun _ => ?_)
        exact (computed_enter hc ((s.tableau.isLive_flag w v _).mpr hlive)).trans
          (computed_modifyVar (f := Variable.unpin) (fun _ _ => rfl) v)

/-! ### What a move makes of variables and constraints -/

/-- A variable after a **move** is a new one, or it was there before and is of the same kind. Its
value is what it was, unless it is external and not pinned, or is not held now and was noted as
pinned or had been held. -/
theorem Move.get?_vars (hs : s.Annotated) (hmove : s.Move a s') {y' : Variable Q}
    (hy' : s'.tableau.vars.get? v = some y') :
    (s.tableau.vars.get? v = none ∧ y'.Plain) ∨
    ∃ y, s.tableau.vars.get? v = some y ∧ y'.kind = y.kind ∧
      (y'.computed = y.computed ∨ y.kind = .external ∧ y.pinned = false ∨
        s'.holds.get? v = none ∧ ((∃ z hidden, a = .note v z hidden) ∨
          ∃ hold, s.holds.get? v = some hold ∧ y'.computed == hold.value)) := by
  cases hmove with
  | quiet ht _ _ =>
      refine (ht.of_get? hy').imp_right fun ⟨y, hy, hkind, _, _, hcomputed⟩ => ⟨y, hy, hkind, ?_⟩
      by_cases hfixed : y.kind ≠ .external ∨ y.pinned
      · exact .inl (hcomputed hfixed)
      · obtain ⟨hkind, hpinned⟩ := not_or.mp hfixed
        exact .inr (.inl ⟨not_not.mp hkind, by simpa using hpinned⟩)
  | enter _ hc =>
      exact (hc.grown.of_get? hy').imp_right fun ⟨y, hy, hcore⟩ =>
        ⟨y, hy, (congrArg Variable.kind hcore :), .inl (congrArg Variable.computed hcore :)⟩
  | @remove id c _ hc =>
      obtain ⟨y, hy, hcore⟩ := (hs.wellFormed.withdrawn hc).of_get? hy'
      exact .inr ⟨y, hy, (congrArg Variable.kind hcore :),
        .inl (congrArg Variable.computed hcore :)⟩
  | @note w x hidden _ hnoted _ _ =>
      obtain ⟨y, hy, rfl | ⟨rfl, rfl⟩⟩ := Tableau.of_get?_modifyVar (·.pin x) hy'
      · exact .inr ⟨_, hy, rfl, .inl rfl⟩
      · have hheld : s.holds.get? v = none :=
          Assoc.get?_eq_none_iff.mpr fun hmem => hnoted (.inr hmem)
        exact .inr ⟨y, hy, rfl, .inr (.inr ⟨hheld, .inl ⟨x, hidden, rfl⟩⟩)⟩
  | @take w hold x _ hhold hx =>
      obtain ⟨y, hy, rfl | ⟨rfl, rfl⟩⟩ := Tableau.of_get?_modifyVar (·.pin x) hy'
      · exact .inr ⟨_, hy, rfl, .inl rfl⟩
      · have hheld : (s.holds.erase v).get? v = none :=
          (Assoc.get?_erase _ _ _).trans (if_pos rfl)
        exact .inr ⟨y, hy, rfl, .inr (.inr ⟨hheld, .inr ⟨hold, hhold, hx⟩⟩)⟩
  | @flag w z _ hz =>
      obtain ⟨y, hy, rfl | ⟨rfl, rfl⟩⟩ := Tableau.of_get?_modifyVar (·.pin z.computed) hy'
      · exact .inr ⟨_, hy, rfl, .inl rfl⟩
      · obtain rfl : z = y := Option.some.inj (hz.symm.trans hy)
        exact .inr ⟨z, hy, rfl, .inl rfl⟩
  | free _ =>
      obtain ⟨y, hy, hkind, heq⟩ := Tableau.of_get?_unpin hy'
      exact .inr ⟨y, hy, hkind, .inl heq⟩
  | drop _ => exact .inr ⟨y', hy', rfl, .inl rfl⟩
  | keep _ _ _ =>
      obtain ⟨y, hy, hkind, heq⟩ := Tableau.of_get?_unpin hy'
      exact .inr ⟨y, hy, hkind, .inl heq⟩
  | @enterHold w _ c t' _ _ _ hc _ =>
      rcases hc.grown.of_get? hy' with ⟨hnone, hplain⟩ | ⟨z, hz, hcore⟩
      · refine .inl ⟨?_, hplain⟩
        rw [Tableau.get?_modifyVar] at hnone
        split at hnone
        · exact Option.map_eq_none_iff.mp hnone
        · exact hnone
      · obtain ⟨y, hy, hkind, heq⟩ := Tableau.of_get?_unpin hz
        exact .inr ⟨y, hy, (congrArg Variable.kind hcore :).trans hkind,
          .inl ((congrArg Variable.computed hcore :).trans heq)⟩

/-- A variable that is held after a **move** was held so before it, or is held at its value. -/
theorem Move.holds_or (hmove : s.Move a s') {hold : Hold Q} (hhold : s'.holds.get? v = some hold) :
    s.holds.get? v = some hold ∨
      ∃ y, s.tableau.vars.get? v = some y ∧ hold.value = y.computed := by
  have herase : ∀ {w : VarId}, (s.holds.erase w).get? v = some hold →
      s.holds.get? v = some hold := fun hget => (Assoc.get?_erase_eq_some_iff.mp hget).2
  have hinsert : ∀ {w : VarId} {y : Variable Q} {id : ConstraintId},
      s.tableau.vars.get? w = some y → (s.holds.insert w ⟨id, y.computed⟩).get? v = some hold →
      s.holds.get? v = some hold ∨
        ∃ y, s.tableau.vars.get? v = some y ∧ hold.value = y.computed := by
    intro w y id hy hget
    obtain ⟨rfl, rfl⟩ | ⟨-, hget⟩ := Assoc.get?_insert_eq_some_iff.mp hget
    · exact .inr ⟨y, hy, rfl⟩
    · exact .inl hget
  cases hmove with
  | quiet _ _ hholds => exact .inl (hholds ▸ hhold)
  | enter _ _ => exact .inl hhold
  | remove _ _ => exact .inl hhold
  | note _ _ _ _ _ => exact .inl hhold
  | take _ _ _ _ => exact .inl (herase hhold)
  | flag _ _ => exact .inl hhold
  | free _ => exact .inl hhold
  | drop _ => exact .inl (herase hhold)
  | keep _ hy _ => exact hinsert hy hhold
  | enterHold _ hy _ _ _ => exact hinsert hy hhold

/-- A value of a constraint that a **move** left is one of a constraint that was there before, or it
was taken in now: it is the value of a variable, which keeps it, and which was pinned if it is
listed as folded, and a constant if it is not. -/
theorem Move.values_or (hs : s.Annotated) (hmove : s.Move a s')
    (hc : s'.tableau.constraints.get? id = some c) {y : K} (hy : c.values.get? v = some y) :
    s.tableau.constraints.get? id = some c ∨
    ∃ x x', s.tableau.vars.get? v = some x ∧ s'.tableau.vars.get? v = some x' ∧
      x'.computed = x.computed ∧ y = Precision.widen x.computed ∧
      (v ∈ c.tag.folded → x.pinned ∧ s'.holds = s.holds) ∧
      (v ∉ c.tag.folded → x.kind = .constant) := by
  cases hmove with
  | quiet ht _ _ => exact .inl (ht.constraints_eq ▸ hc)
  | enter _ hc' =>
      dsimp only at hc
      rw [hc'.constraints_eq] at hc
      obtain ⟨-, rfl⟩ | ⟨-, hc⟩ := Assoc.get?_insert_eq_some_iff.mp hc
      · obtain ⟨x, x', hx, hx', hcomputed, rfl, hpinned, hkind⟩ := hc'.of_values hy
        exact .inr ⟨x, x', hx, hx', hcomputed, rfl, fun hv => ⟨hpinned hv, rfl⟩, hkind⟩
      · exact .inl hc
  | @remove id' c' _ hc' =>
      dsimp only at hc
      rw [(hs.wellFormed.withdrawn hc').constraints_eq] at hc
      exact .inl (Assoc.get?_erase_eq_some_iff.mp hc).2
  | note _ _ _ _ _ => exact .inl hc
  | take _ _ _ _ => exact .inl hc
  | flag _ _ => exact .inl hc
  | free _ => exact .inl hc
  | drop _ => exact .inl hc
  | keep _ _ _ => exact .inl hc
  | @enterHold w z c' t' _ hz _ hc' hrequest =>
      have hc : t'.constraints.get? id = some c := hc
      rw [hc'.constraints_eq] at hc
      obtain ⟨-, rfl⟩ | ⟨-, hc⟩ := Assoc.get?_insert_eq_some_iff.mp hc
      · obtain ⟨x, x', hx, hx', hcomputed, rfl, hpinned, hkind⟩ := hc'.of_values hy
        have hfolded : c'.tag.folded = [] := by
          rw [hc'.folded_eq, hrequest]
          exact pinnedIn_pinRequest _ fun y hy => Tableau.pinned_modifyVar_unpin hy
        refine .inr ?_
        obtain ⟨x₀, hx₀, rfl | ⟨-, rfl⟩⟩ := Tableau.of_get?_modifyVar Variable.unpin hx
        · exact ⟨x, x', hx₀, hx', hcomputed, rfl, by simp [hfolded], hkind⟩
        · exact ⟨x₀, x', hx₀, hx', hcomputed, rfl, by simp [hfolded], hkind⟩
      · exact .inl hc

/-! ### What stays fixed -/

/-- A variable is **fixed at** a number if that is what its fixture is read as, or the same. -/
def FixedAt (s : Solver K Q) (v : VarId) (y : K) : Prop :=
  ∃ x₀ x, y = Precision.widen x₀ ∧ Scalar.Same x₀ x ∧ s.fixture v = some x

omit [Coefficient K] in

/-- What a variable is fixed at depends on its fixture. -/
theorem FixedAt.congr {y : K} (h : s.FixedAt v y) (heq : s'.fixture v = s.fixture v) :
    s'.FixedAt v y := by
  obtain ⟨x₀, x, hwiden, hsame, hx⟩ := h
  exact ⟨x₀, x, hwiden, hsame, heq.trans hx⟩

/-- A solver is **tracked** if its books are in order, variables of its own are at zero, constants
are held at their values, and a variable that a constraint lists as folded is fixed at the number
that the constraint has for it. -/
structure Tracked (own : VarId → Prop) (s : Solver K Q) : Prop where
  booked : s.Booked own
  alien : ∀ v x, s.tableau.vars.get? v = some x → ¬own v → x.kind ≠ .external ∧ x.computed = 0
  held : ∀ v x hold, s.tableau.vars.get? v = some x → x.kind = .constant →
    s.holds.get? v = some hold → hold.value = x.computed
  fixed : ∀ id c v y, s.tableau.constraints.get? id = some c → c.values.get? v = some y →
    v ∈ c.tag.folded → s.FixedAt v y

namespace Tracked

/-- A move keeps variables of the solver's own at zero. -/
theorem alien_move (h : s.Tracked own) (hs : s.Annotated) (hmove : s.Move a s')
    (hnote : ∀ v x hidden, a = .note v x hidden → own v) (hown : ¬own v) {x' : Variable Q}
    (hx' : s'.tableau.vars.get? v = some x') : x'.kind ≠ .external ∧ x'.computed = 0 := by
  rcases hmove.get?_vars hs hx' with ⟨-, hplain⟩ | ⟨x, hx, hkind, heq⟩
  · exact ⟨hplain.kind_ne, hplain.computed_eq⟩
  · obtain ⟨hne, hzero⟩ := h.alien v x hx hown
    rcases heq with heq | ⟨hexternal, -⟩ | ⟨-, ⟨z, hidden, ha⟩ | ⟨hold, hhold, -⟩⟩
    · exact ⟨hkind ▸ hne, heq.trans hzero⟩
    · exact absurd hexternal hne
    · exact absurd (hnote v z hidden ha) hown
    · exact absurd (h.booked.noted_own v (.inr (Assoc.mem_keys_of_get? hhold))) hown

/-- A move leaves constants held at their values. -/
theorem held_move (h : s.Tracked own) (hs : s.Annotated) (hmove : s.Move a s') {x' : Variable Q}
    {hold : Hold Q} (hx' : s'.tableau.vars.get? v = some x') (hk : x'.kind = .constant)
    (hhold : s'.holds.get? v = some hold) : hold.value = x'.computed := by
  rcases hmove.get?_vars hs hx' with ⟨hnone, -⟩ | ⟨x, hx, hkind, heq⟩
  · rcases hmove.holds_or hhold with hhold | ⟨y, hy, -⟩
    · have hown := h.booked.noted_own v (.inr (Assoc.mem_keys_of_get? hhold))
      exact absurd hown (h.booked.counted.not_own_of_get? hnone)
    · exact absurd (hnone.symm.trans hy) (by simp)
  · rcases heq with heq | ⟨hexternal, -⟩ | ⟨hnone, -⟩
    · rw [heq]
      rcases hmove.holds_or hhold with hhold | ⟨y, hy, hvalue⟩
      · exact h.held v x hold hx (hkind ▸ hk) hhold
      · obtain rfl : x = y := Option.some.inj (hx.symm.trans hy)
        exact hvalue
    · rw [hkind, hexternal] at hk
      exact absurd hk (by simp)
    · exact absurd (hnone.symm.trans hhold) (by simp)

/-- A move leaves what a constraint lists as folded fixed at the number that the constraint has for
it. -/
theorem fixed_move (h : s.Tracked own) (hs : s.Annotated) (hmove : s.Move a s') {y : K}
    (hc : s'.tableau.constraints.get? id = some c) (hy : c.values.get? v = some y)
    (hv : v ∈ c.tag.folded) : s'.FixedAt v y := by
  rcases hmove.values_or hs hc hy with hc | ⟨x, x', hx, hx', hcomputed, rfl, hpinned, -⟩
  · obtain ⟨x₀, x, hwiden, hsame, hfix⟩ := h.fixed id c v y hc hy hv
    obtain ⟨x', hfix', hsame'⟩ := h.booked.fixture_move hs hmove
      (h.booked.counted.folded id c hc v hv)
      (fun hidle => h.booked.notMem_folded hs hidle hc hv) hfix
    exact ⟨x₀, x', hwiden, hsame.trans hsame', hfix'⟩
  · obtain ⟨hflag, hholds⟩ := hpinned hv
    have hheld : s'.holds.get? v = none :=
      hholds ▸ Assoc.get?_eq_none_iff.mpr (hs.disjoint v (hs.pinned v x hx hflag))
    exact ⟨x.computed, x'.computed, rfl, hcomputed ▸ .refl _, fixture_of_not_held hheld hx'⟩

/-- A **move** keeps a solver tracked if no request that it enters names a variable twice, and what
it notes is the caller's. -/
theorem move (h : s.Tracked own) (hs : s.Annotated) (hmove : s.Move a s')
    (hvars : ∀ request, a = .enter request → request.expr.vars.Nodup)
    (hnote : ∀ v x hidden, a = .note v x hidden → own v) : s'.Tracked own :=
  ⟨h.booked.move hs hmove hvars hnote, fun _ _ hx' hown => h.alien_move hs hmove hnote hown hx',
    fun _ _ _ hx' hk hhold => h.held_move hs hmove hx' hk hhold,
    fun _ _ _ _ hc hy hv => h.fixed_move hs hmove hc hy hv⟩

/-- A variable that is pinned, or is a constant, has the value at which it is fixed. A held variable
is not pinned, so of these it is a constant. -/
theorem value_eq (h : s.Tracked own) (hs : s.Annotated)
    (hv : s.isPinned v ∨ s.tableau.kind v = .constant) (hx : s.fixture v = some x) :
    s.tableau.value v = Precision.widen x := by
  suffices ∃ y, s.tableau.vars.get? v = some y ∧ y.isFolded ∧ y.computed = x by
    obtain ⟨y, hy, hfolded, rfl⟩ := this
    rw [Tableau.value, hy]
    exact if_pos hfolded
  cases hhold : s.holds.get? v with
  | none =>
      rw [fixture, hhold] at hx
      obtain ⟨y, hy, rfl⟩ := Option.map_eq_some_iff.mp hx
      refine ⟨y, hy, ?_, rfl⟩
      rw [Variable.isFolded, Bool.or_eq_true, decide_eq_true_eq]
      rcases hv with hpin | hk
      · exact .inl (h.booked.flagged v (Assoc.contains_iff.mp hpin) y hy)
      · exact .inr ((Tableau.kind_of_get? hy).symm.trans hk)
  | some hold =>
      obtain rfl : hold.value = x := Option.some.inj ((fixture_of_holds hhold).symm.trans hx)
      have hk := hv.resolve_left fun hpin => hs.disjoint v (Assoc.contains_iff.mp hpin)
        (Assoc.mem_keys_of_get? hhold)
      obtain ⟨y, hy, hkind⟩ := Tableau.get?_of_kind_eq_constant hk
      refine ⟨y, hy, ?_, (h.held v y hold hy hkind hhold).symm⟩
      rw [Variable.isFolded, hkind]
      exact Bool.or_true _

omit [Coefficient K] in
/-- Where there is nothing, there is nothing to be fixed. -/
theorem of_nothing (hcons : s.tableau.constraints = [])
    (hvars : ∀ v, s.tableau.vars.get? v = none) (hpins : s.pins = []) (hholds : s.holds = [])
    (hown : ∀ v, ¬own v) : s.Tracked own := by
  have hnone : ∀ v x, s.tableau.vars.get? v ≠ some x := fun v x hx => by simp [hvars] at hx
  exact ⟨.of_nothing hcons hvars hpins hholds hown, fun v x hx => absurd hx (hnone v x),
    fun v x _ hx => absurd hx (hnone v x), fun _ _ _ _ hc => by simp [hcons] at hc⟩

/-- A new variable leaves the others fixed. -/
theorem declare (h : s.Tracked own) (hs : s.Annotated) (kind : Kind) (stem : String) :
    (s.declare kind stem).2.Tracked fun v => v = (s.declare kind stem).1 ∨ own v := by
  obtain ⟨hnew, label, hget⟩ := s.get?_declare kind stem
  have hne : ∀ {w}, own w → w ≠ (s.declare kind stem).1 := fun hown heq =>
    h.booked.counted.not_own_of_get? hnew (heq ▸ hown)
  have hcons : (s.declare kind stem).2.tableau.constraints = s.tableau.constraints :=
    s.tableau.constraints_addVariable kind _
  refine ⟨h.booked.declare hs kind stem, fun v x hx hown => ?_, fun v x hold hx hk hhold => ?_,
    fun id c v y hc hy hv => ?_⟩
  · obtain ⟨hold, hown⟩ := not_or.mp hown
    rw [hget, if_neg hold] at hx
    exact h.alien v x hx hown
  · rw [hget, if_neg (hne (h.booked.noted_own v (.inr (Assoc.mem_keys_of_get? hhold))))] at hx
    exact h.held v x hold hx hk hhold
  · rw [hcons] at hc
    refine (h.fixed id c v y hc hy hv).congr (fixture_congr rfl fun _ => ?_)
    rw [hget, if_neg (hne (h.booked.counted.folded id c hc v hv))]

/-- The moves of a command keep a solver tracked. -/
theorem path {u : Solver K Q} {command : Command K Q} (h : s.Tracked own) (hs : s.Annotated)
    (hpath : s.Path (command.Does u) s')
    (hdrawn : ∀ request ∈ command.drawn?, request.expr.vars.Nodup)
    (hfixed : ∀ v ∈ command.fixed?, own v) : s'.Tracked own := by
  refine (hpath.keeps (p := fun s => s.Tracked own ∧ s.Annotated) (fun s₁ a s₂ hp ha hmove => ?_)
    ⟨h, hs⟩).1
  refine ⟨hp.1.move hp.2 hmove (fun request hreq => (hreq ▸ ha).nodup hdrawn)
    fun v x hidden hnote => ?_, hp.2.move hmove⟩
  exact (hnote ▸ ha).own hfixed

end Tracked

end Solver

/-! ### Sessions -/

namespace Session

variable [Precision K Q] {s : Session K Q}

/-- **What constraints took in stays fixed** in every session whose caller pins and unpins own
variables only, and names no variable twice in a request. -/
theorem Run.tracked (h : s.Run Proper) : s.solver.Tracked (· ∈ s.created) := by
  induction h with
  | start settings => exact .of_nothing rfl (fun _ => rfl) rfl rfl fun _ => List.not_mem_nil
  | @step s c hrun hc ih =>
      have hs := hrun.reachable.annotated
      refine hc.keeps (p := fun own solver => solver.Tracked own) ih hs
        (fun kind stem _ => ih.declare hs kind stem) (fun _ => ?_)
        fun hpath hfixed => ih.path hs hpath hc.2 hfixed
      exact .of_nothing rfl (VariablePool.get?_reset s.solver.tableau.vars) rfl rfl
        fun _ => not_false

end Session

end LexSimplex
