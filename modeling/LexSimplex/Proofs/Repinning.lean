import LexSimplex.Proofs.Moves
import LexSimplex.Proofs.RowTally

/-!
# Pins that fail

A pin can be refused, and its insertion can fail otherwise. Where the variable was not pinned
before, everything then is what it was. A variable that was pinned is released first, then the new
value is tried, and if that fails the previous one is to be put back: each of these steps can
fail, and then the variable is left without its pin. Of the other variables nothing changes in any
case.

This holds until handles come round: then another constraint may have the handle of the hidden one,
and go with the pin. Nothing here depends on the arithmetic.

## Main definitions

* `Solver.Spares`, `Solver.SameFixings`: what a failed pin leaves of pins, holds and folds.
* `Solver.Repins`: pinning a variable replaces its pin.
* `Solver.Restores`: the previous pin is put back.

## Main results

* `Solver.Annotated.get?_releasePin`, `Solver.Annotated.attachPin_ok`: what the steps change.
* `Solver.Reachable.failed_pin`: what a failed pin changes, and when that is nothing.
-/

namespace LexSimplex

variable {K Q : Type} [Coefficient K]

namespace Solver

variable {s s' : Solver K Q} {v w : VarId} {id : ConstraintId} {fault : Fault}

/-! ### What a failed pin leaves -/

/-- A variable was **made for** the pin of another if it belongs to the hidden constraint of it. -/
def MadeFor (s : Solver K Q) (v w : VarId) : Prop :=
  ∃ id c, s.pins.get? v = some (some id) ∧ s.tableau.constraints.get? id = some c ∧ w ∈ c.tag.vars

/-- A change that **spares** all but the pin of one variable: every other variable is pinned, held,
flagged and folded in as before, with the same value, and of that variable only the pin and its flag
may have changed. Variables that were made for the pin do not count. -/
structure Spares (v : VarId) (s s' : Solver K Q) : Prop where
  isPinned : ∀ w, w ≠ v → s'.isPinned w = s.isPinned w
  isHeld : ∀ w, s'.isHeld w = s.isHeld w
  old : ∀ w y, s.tableau.vars.get? w = some y → ¬s.MadeFor v w →
    ∃ y', s'.tableau.vars.get? w = some y' ∧ ∃ flag, y'.core = { y.core with pinned := flag } ∧
      (w ≠ v → flag = y.pinned)

/-- Two solvers have the **same fixings** if the same variables are pinned and held, the variables
of the one have the same flags, values and counts in the other, and there are as many constraints.
Variables that were made for the pin of `v` do not count. -/
structure SameFixings (v : VarId) (s s' : Solver K Q) : Prop where
  isPinned : ∀ w, s'.isPinned w = s.isPinned w
  isHeld : ∀ w, s'.isHeld w = s.isHeld w
  old : ∀ w y, s.tableau.vars.get? w = some y → ¬s.MadeFor v w →
    ∃ y', s'.tableau.vars.get? w = some y' ∧ y'.core = y.core
  length_eq : s'.tableau.constraints.length = s.tableau.constraints.length

omit [Coefficient K] in
/-- Where a pin was given up the fixings are not the same. -/
theorem not_sameFixings_of_erase (hv : v ∈ s.pins.keys) (hpins : s'.pins = s.pins.erase v) :
    ¬s.SameFixings v s' := by
  intro hsame
  have hpinned : s'.isPinned v = true :=
    (hsame.isPinned v).trans (Assoc.contains_iff.mpr hv)
  rw [isPinned, hpins, Assoc.contains_iff] at hpinned
  exact (Assoc.mem_keys_erase.mp hpinned).1 rfl

omit [Coefficient K] in
/-- Counting leaves the fixings the same. -/
theorem sameFixings_count (v : VarId) (f : Counters → Counters) (status : Status) :
    s.SameFixings v { s with tableau := s.tableau.count f, status := status } :=
  ⟨fun _ => rfl, fun _ => rfl,
    fun w y hy _ => ⟨y, (congrArg (VariablePool.get? · w) (Tableau.vars_count _ f)).trans hy, rfl⟩,
    congrArg List.length (Tableau.constraints_count _ f)⟩

/-- A barren insertion leaves the fixings the same. -/
theorem SameFixings.of_barren [Scalar Q] (hbarren : s.tableau.Barren s'.tableau)
    (hpins : s'.pins = s.pins) (hholds : s'.holds = s.holds) : s.SameFixings v s' := by
  refine ⟨fun w => ?_, fun w => ?_, fun w y hy _ => ?_, by rw [hbarren.constraints_eq]⟩
  · rw [Solver.isPinned, Solver.isPinned, hpins]
  · rw [Solver.isHeld, Solver.isHeld, hholds]
  · obtain ⟨y', hy', hcore⟩ := hbarren.grown.old w y hy
    exact ⟨y', hy', hcore⟩

omit [Coefficient K] in

/-- Where nothing is fixed otherwise the others are spared. -/
theorem SameFixings.spares (h : s.SameFixings v s') : s.Spares v s' := by
  refine ⟨fun w _ => h.isPinned w, h.isHeld, fun w y hy hw => ?_⟩
  obtain ⟨y', hy', hcore⟩ := h.old w y hy hw
  exact ⟨y', hy', y.pinned, hcore, fun _ => rfl⟩

section Core

omit [Coefficient K]

variable {b : Bool} (hpins : ∀ w, w ≠ v → (w ∈ s'.pins.keys ↔ w ∈ s.pins.keys))
  (hholds : s'.holds = s.holds)
  (hcore : ∀ w y, s.tableau.vars.get? w = some y → ¬s.MadeFor v w →
    ∃ y', s'.tableau.vars.get? w = some y' ∧
      y'.core = if w = v then { y.core with pinned := b } else y.core)
include hpins hholds hcore

/-- A change that leaves the cores of variables, apart from the flag of one, spares the others. -/
theorem spares_of_core : s.Spares v s' := by
  refine ⟨fun w hw => Bool.eq_iff_iff.mpr ?_, fun w => ?_, fun w y hy hmade => ?_⟩
  · rw [isPinned, isPinned, Assoc.contains_iff, Assoc.contains_iff]
    exact hpins w hw
  · rw [isHeld, isHeld, hholds]
  · obtain ⟨y', hy', hcore'⟩ := hcore w y hy hmade
    refine ⟨y', hy', if w = v then b else y.pinned, ?_, fun hw => if_neg hw⟩
    rw [hcore']
    split <;> rfl

/-- Where all but the pin of a variable was spared, that pin decides whether the fixings are the
same. -/
theorem sameFixings_iff {y : Variable Q} (hy : s.tableau.vars.get? v = some y)
    (hmade : ¬s.MadeFor v v) : s.SameFixings v s' ↔
      s'.isPinned v = s.isPinned v ∧ b = y.pinned ∧
        s'.tableau.constraints.length = s.tableau.constraints.length := by
  have hspares := spares_of_core hpins hholds hcore
  constructor
  · rintro ⟨hpinned, -, hold, hlength⟩
    obtain ⟨y₁, hy₁, hcore₁⟩ := hold v y hy hmade
    obtain ⟨y₂, hy₂, hcore₂⟩ := hcore v y hy hmade
    obtain rfl : y₁ = y₂ := Option.some.inj (hy₁.symm.trans hy₂)
    rw [if_pos rfl, hcore₁] at hcore₂
    exact ⟨hpinned v, (congrArg Variable.pinned hcore₂ :).symm, hlength⟩
  · rintro ⟨hpinned, rfl, hlength⟩
    refine ⟨fun w => ?_, hspares.isHeld, fun w z hz hw => ?_, hlength⟩
    · rcases eq_or_ne w v with rfl | hne
      · exact hpinned
      · exact hspares.isPinned w hne
    · obtain ⟨z', hz', hcore'⟩ := hcore w z hz hw
      refine ⟨z', hz', hcore'.trans ?_⟩
      split
      · rename_i hwv
        obtain rfl : z = y := Option.some.inj (hz.symm.trans (hwv ▸ hy))
        rfl
      · rfl

end Core

/-! ### The steps -/

/-- No variable is made for its own pin. -/
theorem Annotated.not_madeFor (h : s.Annotated) (hroom : s.tableau.Unwrapped) (v : VarId) :
    ¬s.MadeFor v v := by
  rintro ⟨id, c, hpin, hc, hv⟩
  exact (h.plain hroom v id c (.inl hpin) hc).2 hv

/-- Releasing a pin takes the flag from its variable, and perhaps folds from some others if the
hidden constraint was overwritten. Nothing else changes of a variable that was not made for the pin.
-/
theorem Annotated.core_releasePin (h : s.Annotated) {y : Variable Q}
    (hy : s.tableau.vars.get? w = some y) (hw : ¬s.MadeFor v w) :
    ∃ y', (s.releasePin v).2.tableau.vars.get? w = some y' ∧
      ∃ folds, (s.tableau.Unwrapped → folds = y.folds) ∧
        y'.core = { (if w = v then y.unpin else y).core with folds := folds } := by
  have hflag : (s.tableau.modifyVar v Variable.unpin).vars.get? w =
      some (if w = v then y.unpin else y) := by
    rw [Tableau.get?_modifyVar, hy]
    split <;> rfl
  have hfolds : (if w = v then y.unpin else y).folds = y.folds := by split <;> rfl
  rw [releasePin]
  dsimp only
  split
  · exact ⟨_, hflag, _, fun _ => hfolds, rfl⟩
  · rename_i id hid
    have hpin : s.pins.get? v = some (some id) := Option.join_eq_some_iff.mp hid
    refine Tableau.remove_cases (p := fun result => ∃ y', result.2.vars.get? w = some y' ∧
      ∃ folds, (s.tableau.Unwrapped → folds = y.folds) ∧
        y'.core = { (if w = v then y.unpin else y).core with folds := folds })
      (fun _ => ⟨_, hflag, _, fun _ => hfolds, rfl⟩) fun c hc => ?_
    obtain ⟨y', hy', hcore⟩ := ((h.unflag v).wellFormed.withdrawn hc).old w _
      (fun hmem => hw ⟨id, c, hpin, hc, hmem⟩) hflag
    refine ⟨y', hy', _, fun hroom => ?_, hcore⟩
    rw [hfolds, (h.plain hroom v id c (.inl hpin) hc).1, List.count_nil, Nat.sub_zero]

/-- So only the flag changes as long as handles have not come round. -/
theorem Annotated.get?_releasePin (h : s.Annotated) (hroom : s.tableau.Unwrapped) {y : Variable Q}
    (hy : s.tableau.vars.get? w = some y) (hw : ¬s.MadeFor v w) :
    ∃ y', (s.releasePin v).2.tableau.vars.get? w = some y' ∧
      y'.core = if w = v then y.unpin.core else y.core := by
  obtain ⟨y', hy', folds, hfolds, hcore⟩ := h.core_releasePin hy hw
  obtain rfl := hfolds hroom
  refine ⟨y', hy', hcore.trans ?_⟩
  split <;> rfl

/-- Releasing a pin enters no constraint. -/
theorem entered_releasePin (s : Solver K Q) (v : VarId) :
    (s.releasePin v).2.tableau.entered = s.tableau.entered := by
  rw [releasePin]
  dsimp only
  split
  · rfl
  · exact Tableau.entered_remove (s.tableau.modifyVar v Variable.unpin) _

/-- Where a pin was released its hidden constraint is gone. -/
theorem Annotated.length_releasePin (h : s.Annotated) (hok : (s.releasePin v).1 = .ok ()) :
    (s.releasePin v).2.tableau.constraints.length +
      (if (s.pins.get? v).join.isSome then 1 else 0) = s.tableau.constraints.length := by
  rw [releasePin] at hok ⊢
  dsimp only at hok ⊢
  split at hok
  · rename_i hnone
    rw [hnone]
    rfl
  · rename_i id hid
    rw [hid]
    have hnodup : (s.tableau.modifyVar v Variable.unpin).constraints.keys.Nodup := h.nodup
    have hwell := (h.unflag v).wellFormed
    dsimp only at hok hwell ⊢
    cases hc : (s.tableau.modifyVar v Variable.unpin).constraints.get? id with
    | none =>
        rw [Tableau.remove, hc] at hok
        exact absurd hok (by simp)
    | some c =>
        rw [Tableau.remove, hc]
        dsimp only
        rw [(hwell.withdrawn hc).constraints_eq]
        exact Assoc.length_erase_of_mem hnodup (Assoc.mem_keys_of_get? hc)

variable [Scalar Q] [Precision K Q] {x : Q}

/-- What **pinning a variable that is not noted** changes where it succeeds. -/
theorem Annotated.attachPin_ok (h : s.Annotated) (hroom : s.tableau.Unwrapped)
    (hnoted : ¬s.Noted v) (hok : (s.attachPin v x).1 = .ok ()) :
    (∃ hidden, (s.attachPin v x).2.pins = s.pins.insert v hidden) ∧
      (s.attachPin v x).2.holds = s.holds ∧
      (∀ w y, s.tableau.vars.get? w = some y →
        ∃ y', (s.attachPin v x).2.tableau.vars.get? w = some y' ∧
          y'.core = if w = v then (y.pin x).core else y.core) ∧
      (s.attachPin v x).2.tableau.constraints.length =
        s.tableau.constraints.length + if s.isReferenced v then 1 else 0 := by
  revert hok
  refine h.attachPin_cases (p := fun result => result.1 = .ok () →
    (∃ hidden, result.2.pins = s.pins.insert v hidden) ∧ result.2.holds = s.holds ∧
      (∀ w y, s.tableau.vars.get? w = some y → ∃ y', result.2.tableau.vars.get? w = some y' ∧
        y'.core = if w = v then (y.pin x).core else y.core) ∧
      result.2.tableau.constraints.length =
        s.tableau.constraints.length + if s.isReferenced v then 1 else 0) hnoted ?_ ?_ ?_
  · intro hreferenced _
    refine ⟨⟨none, rfl⟩, rfl, fun w y hy => ?_, by rw [hreferenced]; rfl⟩
    refine ⟨if w = v then y.pin x else y, ?_, by split <;> rfl⟩
    rw [Solver.notePin, Tableau.get?_modifyVar, hy]
    split <;> rfl
  · intro c t' hreferenced _ hc hfolded _
    refine ⟨⟨_, rfl⟩, rfl, fun w y hy => ?_, ?_⟩
    · obtain ⟨y', hy', hcore⟩ := hc.grown.old w y hy
      rw [hfolded] at hcore
      refine ⟨if w = v then y'.pin x else y', ?_, ?_⟩
      · rw [Solver.notePin, Tableau.get?_modifyVar, hy']
        split <;> rfl
      · split
        · exact congrArg (fun z => z.pin x) hcore
        · exact hcore
    · rw [hreferenced, if_pos rfl]
      exact hc.constraints_eq ▸
        Assoc.length_insert_of_get?_eq_none (h.wellFormed.get?_nextConstraint hroom) c
  · exact fun _ _ _ _ _ hok => absurd hok (by simp)

/-! ### Pinning anew -/

/-- A solver in which the pin of a variable was released and the pin to another value tried. -/
def repinTried (s : Solver K Q) (v : VarId) (x : Q) : Solver K Q :=
  ((s.releasePin v).2.attachPin v x).2

/-- Pinning **replaces a pin** if the variable is live and pinned, and no constraint took it in. -/
def Repins (s : Solver K Q) (v : VarId) : Prop :=
  s.tableau.vars.isLive v ∧ v ∈ s.pins.keys ∧ v ∉ s.holds.keys ∧ s.isIdle v

/-- A failed pin **restores** the previous one if the variable was flagged as pinned, its pin could
be released and put back, and it was put back with a hidden constraint if there was one before, and
without one if there was not. -/
def Restores (s : Solver K Q) (v : VarId) (x : Q) : Prop :=
  ∃ y, s.tableau.vars.get? v = some y ∧ y.pinned ∧ (s.releasePin v).1 = .ok () ∧
    ((s.repinTried v x).attachPin v y.computed).1 = .ok () ∧
    ((s.repinTried v x).isReferenced v ↔ (s.pins.get? v).join.isSome)

/-- A variable that is **pinned anew** in vain was not released, or it was released, could not be
pinned, and its previous pin was tried again. -/
theorem repin_error {previous : Q} (hfault : (s.repin v previous x).1 = .error fault) :
    (∃ fault, (s.releasePin v).1 = .error fault ∧
      (s.repin v previous x).2 = (s.releasePin v).2) ∨
    ∃ fault status, (s.releasePin v).1 = .ok () ∧
      ((s.releasePin v).2.attachPin v x).1 = .error fault ∧
      (s.repin v previous x).2 = { ((s.repinTried v x).attachPin v previous).2 with status } := by
  rw [repin] at hfault ⊢
  rw [repinTried]
  generalize s.releasePin v = released at *
  obtain ⟨outcome, s₁⟩ := released
  cases outcome with
  | error fault => exact .inl ⟨fault, rfl, rfl⟩
  | ok _ =>
      refine .inr ?_
      dsimp only at hfault ⊢
      generalize s₁.attachPin v x = attached at *
      obtain ⟨outcome, s₂⟩ := attached
      cases outcome with
      | ok _ => exact absurd hfault (by simp)
      | error fault =>
          dsimp only
          generalize s₂.attachPin v previous = restored at *
          obtain ⟨outcome, s₃⟩ := restored
          cases outcome with
          | ok _ => exact ⟨fault, .infeasible, rfl, rfl, rfl⟩
          | error fault' => exact ⟨fault, s₃.status, rfl, rfl, rfl⟩

namespace Annotated

/-- What is left where a pin was released and the new value could not be pinned: the variable has no
pin and no flag, and nothing else has changed. -/
theorem repinTried_spares (h : s.Annotated) (hroom : s.tableau.Unwrapped) (hrepins : s.Repins v)
    (hfault : ((s.releasePin v).2.attachPin v x).1 = .error fault) :
    (s.repinTried v x).Annotated ∧ (s.repinTried v x).tableau.Unwrapped ∧
      ¬(s.repinTried v x).Noted v ∧ (s.repinTried v x).pins = s.pins.erase v ∧
      (s.repinTried v x).holds = s.holds ∧
      (s.repinTried v x).tableau.constraints = (s.releasePin v).2.tableau.constraints ∧
      ∀ w y, s.tableau.vars.get? w = some y → ¬s.MadeFor v w →
        ∃ y', (s.repinTried v x).tableau.vars.get? w = some y' ∧
          y'.core = if w = v then y.unpin.core else y.core := by
  obtain ⟨hv, -, hheld, hidle⟩ := hrepins
  obtain ⟨hpins, hholds, -⟩ := h.releasePin_notes hv
  have h₁ : (s.releasePin v).2.Annotated :=
    (h.path_releasePin (k := .unpin v) (u := s) fun _ => hidle).annotated h
  have hnoted := h.not_noted_releasePin hv hheld
  obtain ⟨hbarren, hpins₂, hholds₂⟩ := h₁.attachPin_error hnoted hfault
  have hold : ∀ w y, (s.releasePin v).2.tableau.vars.get? w = some y →
      ∃ y', (s.repinTried v x).tableau.vars.get? w = some y' ∧ y'.core = y.core := by
    intro w y hy
    obtain ⟨y', hy', hcore⟩ := hbarren.grown.old w y hy
    exact ⟨y', hy', hcore⟩
  have hquiet : (s.releasePin v).2.Move .other (s.repinTried v x) :=
    .quiet hbarren.quiet hpins₂ hholds₂
  have hnext : (s.repinTried v x).tableau.entered = s.tableau.entered :=
    hbarren.entered_eq.trans (entered_releasePin s v)
  refine ⟨h₁.move hquiet, hroom.of_le (Nat.le_of_eq hnext), ?_, hpins₂.trans hpins,
    hholds₂.trans hholds, hbarren.constraints_eq, fun w y hy hw => ?_⟩
  · exact fun hv => hnoted (by rwa [Noted, repinTried, hpins₂, hholds₂] at hv)
  · obtain ⟨y₁, hy₁, hcore₁⟩ := h.get?_releasePin hroom hy hw
    obtain ⟨y₂, hy₂, hcore₂⟩ := hold w y₁ hy₁
    exact ⟨y₂, hy₂, hcore₂.trans hcore₁⟩

/-- Where the previous pin was put back the others are as before, and so is its own variable if that
was flagged, and there is a hidden constraint exactly if there was one. -/
theorem repinTried_attached (h : s.Annotated) (hroom : s.tableau.Unwrapped) {y : Variable Q}
    (hy : s.tableau.vars.get? v = some y) (hrepins : s.Repins v)
    (hrelease : (s.releasePin v).1 = .ok ())
    (hattach : ((s.releasePin v).2.attachPin v x).1 = .error fault)
    (hback : ((s.repinTried v x).attachPin v y.computed).1 = .ok ()) (status : Status) :
    s.Spares v { ((s.repinTried v x).attachPin v y.computed).2 with status } ∧
      (s.SameFixings v { ((s.repinTried v x).attachPin v y.computed).2 with status } ↔
        y.pinned ∧ ((s.repinTried v x).isReferenced v ↔ (s.pins.get? v).join.isSome)) := by
  obtain ⟨-, hpin, -, -⟩ := id hrepins
  obtain ⟨h₂, hroom₂, hnoted₂, hpins₂, hholds₂, hcons₂, hcore₂⟩ :=
    h.repinTried_spares hroom hrepins hattach
  obtain ⟨⟨hidden, hpins₃⟩, hholds₃, hcore₃, hlength₃⟩ := h₂.attachPin_ok hroom₂ hnoted₂ hback
  set s₃ : Solver K Q := { ((s.repinTried v x).attachPin v y.computed).2 with status }
  have hpins : s₃.pins = (s.pins.erase v).insert v hidden :=
    hpins₃.trans (congrArg (Assoc.insert · v hidden) hpins₂)
  have hholds : s₃.holds = s.holds := hholds₃.trans hholds₂
  have hothers : ∀ w, w ≠ v → (w ∈ s₃.pins.keys ↔ w ∈ s.pins.keys) := fun w hw => by
    rw [hpins, Assoc.mem_keys_insert, or_iff_right hw, Assoc.mem_keys_erase, and_iff_right hw]
  have hcore : ∀ w z, s.tableau.vars.get? w = some z → ¬s.MadeFor v w →
      ∃ z', s₃.tableau.vars.get? w = some z' ∧
        z'.core = if w = v then { z.core with pinned := true } else z.core := by
    intro w z hz hw
    obtain ⟨z₂, hz₂, hcore⟩ := hcore₂ w z hz hw
    obtain ⟨z₃, hz₃, hcore'⟩ := hcore₃ w z₂ hz₂
    refine ⟨z₃, hz₃, hcore'.trans ?_⟩
    rcases eq_or_ne w v with rfl | hne
    · obtain rfl : y = z := Option.some.inj (hy.symm.trans hz)
      rw [if_pos rfl] at hcore
      rw [if_pos rfl, if_pos rfl]
      exact congrArg (fun z => z.pin y.computed) hcore
    · rw [if_neg hne] at hcore
      rw [if_neg hne, if_neg hne, hcore]
  have hpinned : s₃.isPinned v = s.isPinned v := by
    rw [isPinned, isPinned, Assoc.contains_iff.mpr hpin, hpins, Assoc.contains_iff]
    exact (Assoc.mem_keys_insert _ _ _ _).mpr (.inl rfl)
  have hlength : s₃.tableau.constraints.length +
      (if (s.pins.get? v).join.isSome then 1 else 0) = s.tableau.constraints.length +
        if (s.repinTried v x).isReferenced v then 1 else 0 := by
    have hreleased := h.length_releasePin hrelease
    rw [← hcons₂] at hreleased
    rw [← hreleased, Nat.add_right_comm, ← hlength₃]
  have hcount : s₃.tableau.constraints.length = s.tableau.constraints.length ↔
      ((s.repinTried v x).isReferenced v ↔ (s.pins.get? v).join.isSome) := by
    by_cases hnew : (s.repinTried v x).isReferenced v <;>
      by_cases hold : (s.pins.get? v).join.isSome <;>
      simp only [hnew, hold, if_true, if_false, Bool.false_eq_true] at hlength ⊢ <;>
      simp only [iff_true, iff_false, not_true] <;> omega
  refine ⟨spares_of_core hothers hholds hcore,
    (sameFixings_iff hothers hholds hcore hy (h.not_madeFor hroom v)).trans ?_⟩
  rw [hcount, eq_comm (a := true), and_iff_right hpinned]

/-- A variable that is **pinned anew** in vain leaves the others alone, and its own pin is kept
exactly if it is restored. Where its hidden constraint is not there, the pin is given up and nothing
is tried. -/
theorem repin_failed (h : s.Annotated) (hroom : s.tableau.Unwrapped) {y : Variable Q}
    (hy : s.tableau.vars.get? v = some y) (hrepins : s.Repins v)
    (hfault : (s.repin v y.computed x).1 = .error fault) :
    s.Spares v (s.repin v y.computed x).2 ∧
      (s.SameFixings v (s.repin v y.computed x).2 ↔ s.Restores v x) := by
  obtain ⟨hlive, hpin, -, -⟩ := id hrepins
  have hothers : ∀ w, w ≠ v → (w ∈ (s.pins.erase v).keys ↔ w ∈ s.pins.keys) := fun w hw =>
    Assoc.mem_keys_erase.trans (and_iff_right hw)
  obtain ⟨hpins, hholds, -, -⟩ := h.releasePin_notes hlive
  rcases repin_error hfault with ⟨fault', hrelease, heq⟩ | ⟨fault', status, hrelease, hattach, heq⟩
  · rw [heq]
    refine ⟨spares_of_core (b := false) (hpins ▸ hothers) hholds fun w z hz hw =>
        h.get?_releasePin hroom hz hw,
      iff_of_false (not_sameFixings_of_erase hpin hpins) ?_⟩
    rintro ⟨-, -, -, hok, -⟩
    rw [hrelease] at hok
    exact absurd hok (by simp)
  · rw [heq]
    cases hback : ((s.repinTried v x).attachPin v y.computed).1 with
    | error fault'' =>
        obtain ⟨h₂, -, hnoted₂, hpins₂, hholds₂, -, hcore₂⟩ :=
          h.repinTried_spares hroom hrepins hattach
        obtain ⟨hbarren, hpins₃, hholds₃⟩ := h₂.attachPin_error hnoted₂ hback
        have hpins' := hpins₃.trans hpins₂
        refine ⟨spares_of_core (b := false) (hpins' ▸ hothers) (hholds₃.trans hholds₂)
            fun w z hz hw => ?_,
          iff_of_false (not_sameFixings_of_erase hpin hpins') ?_⟩
        · obtain ⟨z₂, hz₂, hcore⟩ := hcore₂ w z hz hw
          obtain ⟨z₃, hz₃, hcore'⟩ := hbarren.grown.old w z₂ hz₂
          exact ⟨z₃, hz₃, Eq.trans hcore' hcore⟩
        · rintro ⟨y', hy', -, -, hok, -⟩
          obtain rfl : y = y' := Option.some.inj (hy.symm.trans hy')
          rw [hback] at hok
          exact absurd hok (by simp)
    | ok _ =>
        obtain ⟨hspares, hiff⟩ :=
          h.repinTried_attached hroom hy hrepins hrelease hattach hback status
        refine ⟨hspares, hiff.trans ⟨?_, ?_⟩⟩
        · rintro ⟨hflag, hhidden⟩
          exact ⟨y, hy, hflag, hrelease, hback, hhidden⟩
        · rintro ⟨y', hy', hflag, -, -, hhidden⟩
          obtain rfl : y = y' := Option.some.inj (hy.symm.trans hy')
          exact ⟨hflag, hhidden⟩

end Annotated

/-- **A pin that fails** leaves all other variables as they were, as long as fewer constraints were
entered than there are handles. It changes nothing at all if the variable was not pinned, or
constraints had taken it in; and where it was to replace a pin, it changes nothing exactly if the
previous pin was restored. -/
theorem Reachable.failed_pin (h : s.Reachable) (hroom : s.tableau.Unwrapped)
    (hfault : (s.pin v x).1 = .error fault) :
    s.Spares v (s.pin v x).2 ∧
      (s.SameFixings v (s.pin v x).2 ↔ ¬s.Repins v ∨ s.Restores v x) := by
  have hs := h.annotated
  have hkept : ∀ {s' : Solver K Q}, s.SameFixings v s' → ¬s.Repins v →
      s.Spares v s' ∧ (s.SameFixings v s' ↔ ¬s.Repins v ∨ s.Restores v x) := fun hsame hnot =>
    ⟨hsame.spares, iff_of_true hsame (.inl hnot)⟩
  revert hfault
  refine pin_cases (p := fun result => result.1 = .error fault → s.Spares v result.2 ∧
    (s.SameFixings v result.2 ↔ ¬s.Repins v ∨ s.Restores v x)) ?_ ?_ ?_ ?_ ?_ ?_
  · intro hnone _
    exact hkept ⟨fun _ => rfl, fun _ => rfl, fun w y hy _ => ⟨y, hy, rfl⟩, rfl⟩
      fun hrepins => VariablePool.not_isLive_of_get? hnone hrepins.1
  · intro y fixed text f hy hfixed _ _
    refine hkept (sameFixings_count v f .infeasible) fun ⟨_, _, hheld, hidle⟩ => ?_
    exact absurd ((fixedValue?_eq_none hy hheld hidle).symm.trans hfixed) (by simp)
  · exact fun _ _ _ _ _ hok => absurd hok (by simp)
  · exact fun _ _ _ _ _ hok => absurd hok (by simp)
  · intro y hy hheld hidle hpin hfault
    have hrepins : s.Repins v := ⟨VariablePool.isLive_iff.mpr ⟨y, hy⟩, hpin, hheld, hidle⟩
    obtain ⟨hspares, hiff⟩ := hs.repin_failed hroom hy hrepins hfault
    exact ⟨hspares, hiff.trans (or_iff_right (not_not.mpr hrepins)).symm⟩
  · intro y hy hnoted _ hfault
    obtain ⟨hbarren, hpins, hholds⟩ := hs.attachPin_error hnoted hfault
    exact hkept (.of_barren hbarren hpins hholds) fun hrepins => hnoted (.inl hrepins.2.1)

/-- A solver that may not pivot, with a pinned variable whose hidden constraint a later request made
hard to replace. -/
def cornered : Solver Float Float32 :=
  (empty { maxIterations := some 0 }).run
    [.declare .external "", .declare .external "", .arrange (.equality ⟨1⟩ ⟨0⟩ 0) .fixed,
      .pin ⟨0⟩ 5, .add (Request.empty.addTerm ⟨1⟩ (1 : Float32)) .ge]

/-- A pin to another value that fails and loses the previous one. -/
theorem failed_pin_of_cornered :
    cornered.Reachable ∧ cornered.tableau.Unwrapped ∧
      (cornered.pin ⟨0⟩ 7).1 = .error (.iterationLimit 0) ∧
      (cornered.Spares ⟨0⟩ (cornered.pin ⟨0⟩ 7).2 ∧
        (cornered.SameFixings ⟨0⟩ (cornered.pin ⟨0⟩ 7).2 ↔
          ¬cornered.Repins ⟨0⟩ ∨ cornered.Restores ⟨0⟩ 7)) ∧
      cornered.isPinned ⟨0⟩ ∧ (cornered.pin ⟨0⟩ 7).2.isPinned ⟨0⟩ = false ∧
      cornered.tableau.constraints.length = 3 ∧
      (cornered.pin ⟨0⟩ 7).2.tableau.constraints.length = 2 := by
  have hreachable : cornered.Reachable := ⟨{ maxIterations := some 0 }, _, rfl⟩
  have hfault : (cornered.pin ⟨0⟩ 7).1 = .error (.iterationLimit 0) := by decide +kernel
  have hroom : cornered.tableau.Unwrapped := by decide +kernel
  exact ⟨hreachable, hroom, hfault, hreachable.failed_pin hroom hfault, by decide +kernel,
    by decide +kernel, by decide +kernel, by decide +kernel⟩

end Solver

end LexSimplex
