import LexSimplex.Proofs.FeasibleRemovals
import LexSimplex.Proofs.Fixtures
import LexSimplex.Proofs.Repinning

/-!
# The values that constraints took in

A constraint takes in the values of pinned variables and those of constants. The pinned ones count
the constraints, and keep their values while one of them is there. Constants that are not pinned
count nothing, so they can be pinned to another value, and the constraints are left with the old
one. No other command parts a constant from the values that constraints have for it.

## Main definitions

* `Solver.Keeps`: a variable is fixed at a number, and has it for a value if it is pinned or a
  constant.
* `Solver.CopiesAgree`: the values that constraints have without being counted agree.
* `Solver.Overrides`: pinning parts a constant from the values that constraints have for it.

## Main results

* `Solver.Overrides.pin`: such a pin succeeds, and the constraints stay.
* `Solver.Tracked.copiesAgree_move`, `Solver.Tracked.copiesAgree_pin`: nothing else does that.
* `Session.Run.folded_values`: which variables keep the values that constraints took in.
-/

namespace LexSimplex

variable {K Q : Type} [Coefficient K]

namespace Solver

/-! ### Releasing and noting pins -/

section Pins

variable {s : Solver K Q} {v : VarId}

/-- A pin is released if its hidden constraint is there, and only that constraint goes away. -/
theorem constraints_releasePin (s : Solver K Q) (v : VarId) :
    ((s.releasePin v).1 = .ok () ↔ ∀ id ∈ (s.pins.get? v).join, s.hasConstraint id) ∧
      ∀ id, (s.releasePin v).2.tableau.constraints.get? id =
        if id ∈ (s.pins.get? v).join then none else s.tableau.constraints.get? id := by
  rw [releasePin]
  cases hhidden : (s.pins.get? v).join with
  | none => exact ⟨by simp, fun id => (if_neg (by simp)).symm⟩
  | some hidden =>
      dsimp only
      refine Tableau.remove_cases (t := s.tableau.modifyVar v Variable.unpin) (p := fun result =>
        (result.1 = .ok () ↔ ∀ id ∈ some hidden, s.hasConstraint id) ∧
          ∀ id, result.2.constraints.get? id =
            if id ∈ some hidden then none else s.tableau.constraints.get? id)
        (fun hnone => ⟨?_, fun id => ?_⟩) fun c hc => ⟨?_, fun id => ?_⟩
      · refine iff_of_false (by simp) fun hall => ?_
        obtain ⟨c, hc⟩ := hasConstraint_iff.mp (hall hidden rfl)
        exact absurd (hnone.symm.trans hc) (by simp)
      · split
        · rename_i hid
          exact Option.some.inj hid ▸ hnone
        · rfl
      · refine iff_of_true rfl fun id hid => hasConstraint_iff.mpr ⟨c, ?_⟩
        exact Option.some.inj hid ▸ hc
      · rw [Tableau.constraints_withdraw, Assoc.get?_erase]
        exact if_congr (by rw [Option.mem_some_iff, eq_comm]) rfl rfl

/-- A variable of the caller's from which a pin is released keeps its kind and its value. -/
theorem Annotated.get?_released {own : VarId → Prop} (h : s.Annotated) (hbooked : s.Booked own)
    {y : Variable Q} (hy : s.tableau.vars.get? v = some y) :
    ∃ y', (s.releasePin v).2.tableau.vars.get? v = some y' ∧ y'.kind = y.kind ∧
      y'.computed = y.computed := by
  have hmade : ¬s.MadeFor v v := fun ⟨id, c, hpin, hc, hmem⟩ =>
    hbooked.counted.apart id c hc v hmem (hbooked.noted_own v (.inl (Assoc.mem_keys_of_get? hpin)))
  obtain ⟨y', hy', folds, -, hcore⟩ := h.core_releasePin hy hmade
  rw [if_pos rfl] at hcore
  exact ⟨y', hy', (congrArg Variable.kind hcore :), (congrArg Variable.computed hcore :)⟩

variable [Precision K Q]

/-- A variable that is noted as pinned has the value that it was pinned to. -/
theorem value_notePin (hv : s.tableau.vars.isLive v) (x : Q) (hidden : Option ConstraintId) :
    (s.notePin v x hidden).tableau.value v = Precision.widen x := by
  obtain ⟨y, hy⟩ := VariablePool.isLive_iff.mp hv
  rw [notePin, Tableau.value, Tableau.get?_modifyVar, if_pos rfl, hy]
  exact if_pos rfl

/-- A constant needs no hidden constraint. -/
theorem attachPin_of_constant [Scalar Q] (hk : s.tableau.kind v = .constant) (x : Q) :
    s.attachPin v x = (.ok (), s.notePin v x none) := by
  rw [attachPin, isReferenced, hk]
  rfl

end Pins

variable [Scalar Q] [Precision K Q] {own : VarId → Prop} {s s' u : Solver K Q} {v : VarId}
  {id : ConstraintId} {c : Constraint K} {x : Q} {a : Act K Q} {command : Command K Q}

/-! ### Pins that override constants -/

/-- Pinning a variable to a value **overrides** it if it is a constant with another value, neither
held nor counted as folded; the hidden constraint of its pin is there if there is one; and another
constraint has the value that it had when that was added. -/
def Overrides (s : Solver K Q) (v : VarId) (x : Q) : Prop :=
  (∃ y ∈ s.tableau.vars.get? v,
      y.kind = .constant ∧ s.fixedValue? v y = none ∧ x != y.computed) ∧
    (∀ id ∈ (s.pins.get? v).join, s.hasConstraint id) ∧
    ∃ e ∈ s.tableau.constraints, e.1 ∉ (s.pins.get? v).join ∧ (e.2.values.get? v).isSome

instance (s : Solver K Q) (v : VarId) (x : Q) : Decidable (s.Overrides v x) :=
  inferInstanceAs (Decidable ((∃ y ∈ s.tableau.vars.get? v,
      y.kind = .constant ∧ s.fixedValue? v y = none ∧ x != y.computed) ∧
    (∀ id ∈ (s.pins.get? v).join, s.hasConstraint id) ∧
    ∃ e ∈ s.tableau.constraints, e.1 ∉ (s.pins.get? v).join ∧ (e.2.values.get? v).isSome))

/-- A pin that **overrides** a constant succeeds. The constant has the new value, and a constraint
that has the old one stays. -/
theorem Overrides.pin (h : s.Overrides v x) (hs : s.Annotated) (hbooked : s.Booked own) :
    (s.pin v x).1 = .ok () ∧ (s.pin v x).2.tableau.value v = Precision.widen x ∧
      ∃ id c, s.tableau.constraints.get? id = some c ∧
        (s.pin v x).2.tableau.constraints.get? id = some c ∧ (c.values.get? v).isSome := by
  obtain ⟨⟨y, hy, hkind, hfixed, -⟩, hhidden, ⟨id, c⟩, hmem, hid, hvalue⟩ := h
  have hy : s.tableau.vars.get? v = some y := hy
  have hc : s.tableau.constraints.get? id = some c := (Assoc.get?_eq_some_iff hs.nodup).mpr hmem
  have hk : s.tableau.kind v = .constant := (Tableau.kind_of_get? hy).trans hkind
  rw [Solver.pin, hy]
  simp only [hfixed]
  split
  · obtain ⟨hok, hcons⟩ := s.constraints_releasePin v
    obtain ⟨y', hy', hsame, -⟩ := hs.get?_released hbooked hy
    have hk' : (s.releasePin v).2.tableau.kind v = .constant :=
      (Tableau.kind_of_get? hy').trans (hsame.trans hkind)
    have hrelease : s.releasePin v = (.ok (), (s.releasePin v).2) :=
      Prod.ext (hok.mpr hhidden) rfl
    rw [repin, hrelease]
    simp only [attachPin_of_constant hk']
    refine ⟨trivial, value_notePin (VariablePool.isLive_iff.mpr ⟨y', hy'⟩) x none, id, c, hc, ?_,
      hvalue⟩
    exact (hcons id).trans ((if_neg hid).trans hc)
  · rw [attachPin_of_constant hk]
    exact ⟨rfl, value_notePin (VariablePool.isLive_iff.mpr ⟨y, hy⟩) x none, id, c, hc, hc, hvalue⟩

omit [Precision K Q] in
/-- A constant that nothing fixes is pinned to its own value, or no other constraint has that,
unless the pin overrides it. -/
theorem beq_of_not_overrides (hs : s.Annotated) (hnot : ¬s.Overrides v x) {y : Variable Q}
    (hy : s.tableau.vars.get? v = some y) (hk : s.tableau.kind v = .constant)
    (hfixed : s.fixedValue? v y = none)
    (hhidden : ∀ id ∈ (s.pins.get? v).join, s.hasConstraint id)
    (hc : s.tableau.constraints.get? id = some c) (hid : id ∉ (s.pins.get? v).join)
    (hvalue : (c.values.get? v).isSome) : x == y.computed := by
  by_contra hne
  refine hnot ⟨⟨y, hy, (Tableau.kind_of_get? hy).symm.trans hk, hfixed, ?_⟩, hhidden, (id, c),
    (Assoc.get?_eq_some_iff hs.nodup).mp hc, hid, hvalue⟩
  simpa [bne] using hne

/-! ### Values that are not counted -/

/-- The **copies** of a variable's value agree if the constraints that have it, and do not list the
variable as folded, have its own value where it is a constant of the caller's. Those of a variable
of the solver's own are zero. -/
def CopiesAgree (own : VarId → Prop) (s : Solver K Q) (v : VarId) : Prop :=
  ∀ id c y, s.tableau.constraints.get? id = some c → c.values.get? v = some y →
    v ∉ c.tag.folded → ∃ x₀, y = Precision.widen x₀ ∧
      (own v → ∀ x, s.tableau.vars.get? v = some x → x.kind = .constant →
        Scalar.Same x₀ x.computed) ∧
      (¬own v → x₀ = 0)

omit [Coefficient K] in
/-- A constant stays in agreement where it is pinned to a value, if that is its own or no constraint
has it. -/
theorem CopiesAgree.notePin (h : s.CopiesAgree own v) {y : Variable Q}
    (hy : s.tableau.vars.get? v = some y) (hown : own v) {hidden : Option ConstraintId}
    (hx : ∀ id c, s.tableau.constraints.get? id = some c → (c.values.get? v).isSome →
      x == y.computed) : (s.notePin v x hidden).CopiesAgree own v := by
  intro id c z hc hz hv
  obtain ⟨x₀, hwiden, hmine, -⟩ := h id c z hc hz hv
  refine ⟨x₀, hwiden, fun _ y' hy' hk => ?_, fun hnot => absurd hown hnot⟩
  obtain ⟨y₁, hy₁, rfl | ⟨-, rfl⟩⟩ := Tableau.of_get?_modifyVar (·.pin x) hy'
  · exact hmine hown _ hy₁ hk
  · obtain rfl : y = y₁ := Option.some.inj (hy.symm.trans hy₁)
    have hsame := hmine hown y hy hk
    exact hsame.trans (Scalar.Same.of_beq (hx id c hc (hz ▸ rfl))).symm

namespace Tracked

/-- A **move** keeps copies in agreement, unless it notes a constant as pinned. -/
theorem copiesAgree_move (h : s.Tracked own) (hs : s.Annotated) (hmove : s.Move a s')
    (hnote : ∀ x hidden, a = .note v x hidden → s.tableau.kind v ≠ .constant)
    (hcopies : s.CopiesAgree own v) : s'.CopiesAgree own v := by
  intro id c y hc hy hv
  rcases hmove.values_or hs hc hy with hc | ⟨z, z', hz, hz', hcomputed, rfl, -, -⟩
  · obtain ⟨x₀, hwiden, hmine, halien⟩ := hcopies id c y hc hy hv
    refine ⟨x₀, hwiden, fun hown x' hx' hk => ?_, halien⟩
    rcases hmove.get?_vars hs hx' with ⟨hnone, -⟩ | ⟨x, hx, hkind, heq⟩
    · exact absurd hown (h.booked.counted.not_own_of_get? hnone)
    · rw [hkind] at hk
      have hsame := hmine hown x hx hk
      rcases heq with heq | ⟨hexternal, -⟩ | ⟨-, ⟨z, hidden, ha⟩ | ⟨hold, hhold, heq⟩⟩
      · exact heq ▸ hsame
      · exact absurd (hk.symm.trans hexternal) (by simp)
      · exact absurd ((Tableau.kind_of_get? hx).trans hk) (hnote z hidden ha)
      · rw [h.held v x hold hx hk hhold] at heq
        exact hsame.trans (Scalar.Same.of_beq heq).symm
  · refine ⟨z.computed, rfl, fun _ x' hx' _ => ?_, fun hown => (h.alien v z hz hown).2⟩
    obtain rfl : z' = x' := Option.some.inj (hz'.symm.trans hx')
    exact hcomputed ▸ .refl _

/-- A variable of the caller's stays of its kind. -/
theorem kind_move (h : s.Tracked own) (hs : s.Annotated) (hmove : s.Move a s')
    (h' : s'.Tracked own) (hown : own v) : s'.tableau.kind v = s.tableau.kind v := by
  obtain ⟨y', hy'⟩ := VariablePool.isLive_iff.mp (h'.booked.counted.isLive v hown)
  rcases hmove.get?_vars hs hy' with ⟨hnone, -⟩ | ⟨y, hy, hkind, -⟩
  · exact absurd hown (h.booked.counted.not_own_of_get? hnone)
  · rw [Tableau.kind_of_get? hy', Tableau.kind_of_get? hy, hkind]

/-- The moves of a command keep copies in agreement, unless it pins the variable and that is a
constant. -/
theorem copiesAgree_path (h : s.Tracked own) (hs : s.Annotated)
    (hpath : s.Path (command.Does u) s')
    (hdrawn : ∀ request ∈ command.drawn?, request.expr.vars.Nodup)
    (hfixed : ∀ v ∈ command.fixed?, own v)
    (hpin : ∀ x, command = .pin v x → s.tableau.kind v ≠ .constant)
    (hcopies : s.CopiesAgree own v) : s'.CopiesAgree own v := by
  refine (hpath.keeps (p := fun s => s.Tracked own ∧ s.Annotated ∧
    (∀ x, command = .pin v x → s.tableau.kind v ≠ .constant) ∧ s.CopiesAgree own v)
    (fun s₁ a s₂ hp ha hmove => ?_) ⟨h, hs, hpin, hcopies⟩).2.2.2
  obtain ⟨h₁, hs₁, hpin₁, hcopies₁⟩ := hp
  have h₂ := h₁.path hs₁ (hmove.path ha) hdrawn hfixed
  refine ⟨h₂, hs₁.move hmove, fun x hcommand => ?_,
    h₁.copiesAgree_move hs₁ hmove (fun x hidden hnote => ?_) hcopies₁⟩
  · rw [h₁.kind_move hs₁ hmove h₂ (hfixed v (hcommand ▸ rfl))]
    exact hpin₁ x hcommand
  · rw [hnote] at ha
    obtain ⟨⟨x', hcommand⟩, -⟩ := ha
    exact hpin₁ x' hcommand

/-- **Pinning a constant** keeps its copies in agreement, unless it overrides them: the release of
an old pin is not a note, and the constant is then noted without fail. -/
theorem copiesAgree_pin (h : s.Tracked own) (hs : s.Annotated) (hown : own v)
    (hk : s.tableau.kind v = .constant) (hnot : ¬s.Overrides v x)
    (hcopies : s.CopiesAgree own v) : (s.pin v x).2.CopiesAgree own v := by
  have hquiet : ∀ {s' : Solver K Q}, s.Move .other s' → s'.CopiesAgree own v := fun hmove =>
    h.copiesAgree_move hs hmove (by simp) hcopies
  refine pin_cases (p := fun result => result.2.CopiesAgree own v) ?_ ?_ ?_ ?_ ?_ ?_
  · exact fun _ => hcopies
  · intro y fixed text f _ _ _
    exact hquiet (.quiet (hs.wellFormed.quiet_count f) rfl rfl)
  · exact fun _ _ _ _ _ => hcopies
  · intro y hold hy hhold hx
    exact hquiet (.take x (VariablePool.isLive_iff.mpr ⟨y, hy⟩) hhold hx)
  · intro y hy hheld hidle hpin
    have hpath := hs.path_releasePin (k := .unpin v) (u := s) (v := v) fun _ => hidle
    have hreleased := h.copiesAgree_path hs hpath (by simp [Command.drawn?])
      (by simpa [Command.fixed?] using hown) (by simp) hcopies
    obtain ⟨hok, hcons⟩ := s.constraints_releasePin v
    obtain ⟨y', hy', hkind, hcomputed⟩ := hs.get?_released h.booked hy
    rw [repin]
    split
    · rename_i heq
      rwa [heq] at hreleased
    · rename_i s₁ heq
      rw [heq] at hok hcons hy' hreleased
      have hk' : s₁.tableau.kind v = .constant := (Tableau.kind_of_get? hy').trans
        (hkind.trans ((Tableau.kind_of_get? hy).symm.trans hk))
      simp only [attachPin_of_constant hk']
      refine hreleased.notePin hy' hown fun id c hc hvalue => ?_
      rw [hcons] at hc
      split at hc
      · exact absurd hc (by simp)
      · rename_i hid
        rw [hcomputed]
        exact beq_of_not_overrides hs hnot hy hk (fixedValue?_eq_none hy hheld hidle) (hok.mp rfl)
          hc hid hvalue
  · intro y hy hnoted hidle
    have hpins : s.pins.get? v = none := Assoc.get?_eq_none_iff.mpr fun hmem => hnoted (.inl hmem)
    have hfixed := fixedValue?_eq_none hy (fun hmem => hnoted (.inr hmem)) hidle
    rw [attachPin_of_constant hk]
    exact hcopies.notePin hy hown fun id c hc => beq_of_not_overrides hs hnot hy hk hfixed
      (by simp [hpins]) hc (by simp [hpins])

/-- A new variable, and the old ones, are in agreement. A constraint that speaks of the new one
speaks of a variable that is gone, which was at zero. -/
theorem copiesAgree_declare (h : s.Tracked own) (kind : Kind) (stem : String)
    (hcopies : ∀ v, s.CopiesAgree own v) (v : VarId) :
    (s.declare kind stem).2.CopiesAgree (fun v => v = (s.declare kind stem).1 ∨ own v) v := by
  obtain ⟨hnew, label, hget⟩ := s.get?_declare kind stem
  intro id c y hc hy hv
  have hc : s.tableau.constraints.get? id = some c :=
    (congrArg (·.get? id) (s.tableau.constraints_addVariable kind _)).symm.trans hc
  obtain ⟨x₀, hwiden, hmine, halien⟩ := hcopies v id c y hc hy hv
  refine ⟨x₀, hwiden, fun hown x hx hk => ?_, fun hown => halien fun hmem => hown (.inr hmem)⟩
  rw [hget] at hx
  split at hx
  · rename_i hv
    obtain rfl := Option.some.inj hx
    have hgone : ¬own v := h.booked.counted.not_own_of_get? (hv ▸ hnew)
    rw [halien hgone]
    exact .refl _
  · rename_i hne
    exact hmine (hown.resolve_left hne) x hx hk

end Tracked

/-! ### Variables that keep a number -/

/-- A constraint that is **added** has the values that its pinned variables and constants are told
to have, and lists the pinned ones as folded. -/
theorem Tracked.values_add (h : s.Tracked own) (hs : s.Annotated) {request : Request K}
    {relation : Relation} (hid : (s.add request relation).1 = .ok id) :
    ∃ c, (s.add request relation).2.tableau.constraints.get? id = some c ∧
      ∀ v ∈ request.expr.vars, (s.isPinned v → v ∈ c.tag.folded) ∧
        (s.isPinned v ∨ s.tableau.kind v = .constant →
          c.values.get? v = some (s.tableau.value v)) := by
  obtain ⟨htableau, -, -, hresult⟩ := s.tableau_add request relation
  rw [hresult] at hid
  rcases hs.wellFormed.insert_or request relation with ⟨c, hok, rfl, -, hc⟩ | ⟨fault, hfault, -⟩
  · obtain rfl := Except.ok.inj (hok.symm.trans hid)
    refine ⟨c, ?_, fun v hv => ?_⟩
    · rw [htableau, hc.constraints_eq, Assoc.get?_insert, if_pos rfl]
    · obtain ⟨y, hy⟩ := VariablePool.isLive_iff.mp (hc.isLive v hv)
      have hflag : s.isPinned v → y.pinned := fun hpin =>
        h.booked.flagged v (Assoc.contains_iff.mp hpin) y hy
      refine ⟨fun hpin => ?_, fun htold => ?_⟩
      · rw [hc.folded_eq, Tableau.pinnedIn, List.mem_filter, hy]
        exact ⟨hv, hflag hpin⟩
      · have hfolded : y.isFolded := by
          rw [Variable.isFolded, Bool.or_eq_true, decide_eq_true_eq]
          exact htold.imp hflag (Tableau.kind_of_get? hy).symm.trans
        rw [hc.values_eq, Tableau.get?_valuesIn s.tableau hv, Tableau.value, hy, Option.filter_some,
          if_pos hfolded]
        exact congrArg some (if_pos hfolded).symm
  · rw [hfault] at hid
    exact absurd hid (by simp)

/-- A variable **keeps** a number if what it is fixed at is read as that number, or is the same, and
if the value that a caller is told is that, where the variable is pinned or a constant. -/
def Keeps (s : Solver K Q) (v : VarId) (y : K) : Prop :=
  ∃ x₀ x, y = Precision.widen x₀ ∧ Scalar.Same x₀ x ∧ s.fixture v = some x ∧
    (s.isPinned v ∨ s.tableau.kind v = .constant → s.tableau.value v = Precision.widen x)

namespace Tracked

/-- In a tracked solver a variable keeps the number that it is fixed at. -/
theorem keeps (h : s.Tracked own) (hs : s.Annotated) {y : K} (hy : s.FixedAt v y) :
    s.Keeps v y := by
  obtain ⟨x₀, x, hwiden, hsame, hx⟩ := hy
  exact ⟨x₀, x, hwiden, hsame, hx, fun hv => h.value_eq hs hv hx⟩

/-- Constants keep the values that constraints took in, if the copies agree. -/
theorem keeps_of_copiesAgree (h : s.Tracked own) (hs : s.Annotated) (hcopies : s.CopiesAgree own v)
    {y : K} (hc : s.tableau.constraints.get? id = some c) (hy : c.values.get? v = some y)
    (hk : s.tableau.kind v = .constant) : s.Keeps v y := by
  refine h.keeps hs ?_
  by_cases hv : v ∈ c.tag.folded
  · exact h.fixed id c v y hc hy hv
  · obtain ⟨x, hx, hkind⟩ := Tableau.get?_of_kind_eq_constant hk
    obtain ⟨x₀, hwiden, hmine, halien⟩ := hcopies id c y hc hy hv
    refine ⟨x₀, x.computed, hwiden, ?_, ?_⟩
    · by_cases hown : own v
      · exact hmine hown x hx hkind
      · rw [halien hown, (h.alien v x hx hown).2]
        exact .refl _
    · cases hhold : s.holds.get? v with
      | none => exact fixture_of_not_held hhold hx
      | some hold =>
          exact (fixture_of_holds hhold).trans (congrArg _ (h.held v x hold hx hkind hhold))

end Tracked

end Solver

/-! ### Exact arithmetic -/

/-- In exact arithmetic only equal quantities are the same. -/
theorem Scalar.Same.eq {x y : Rat} (h : Same x y) : x = y := by
  induction h with
  | rel x y h => exact eq_of_beq h
  | refl x => rfl
  | symm x y _ ih => exact ih.symm
  | trans x y z _ _ ih ih' => exact ih.trans ih'

/-- In a feasible tableau a variable that keeps a number has it for a value, as a held one is given
it by its hidden constraint as long as handles have not come round. -/
theorem Solver.Sound.value_eq_of_keeps {s : Solver Rat Rat} {own : VarId → Prop} {v : VarId}
    {x : Rat} (h : s.Sound own) (hs : s.Annotated) (hroom : s.tableau.Unwrapped)
    (hregular : s.tableau.Regular) (hfeasible : s.tableau.BasicFeasible) (hkeeps : s.Keeps v x)
    (hv : s.Noted v ∨ s.tableau.kind v = .constant) : s.tableau.value v = x := by
  obtain ⟨x, x', rfl, hsame, hx, hvalue⟩ := hkeeps
  obtain rfl := hsame.eq
  by_cases htold : s.isPinned v ∨ s.tableau.kind v = .constant
  · exact hvalue htold
  · obtain ⟨hpin, hk⟩ := not_or.mp htold
    have hpin : v ∉ s.pins.keys := mt Assoc.contains_iff.mpr hpin
    obtain ⟨hold, hhold⟩ := Option.isSome_iff_exists.mp
      (Assoc.contains_iff.mpr ((hv.resolve_right hk).resolve_left hpin))
    obtain rfl : hold.value = x := Option.some.inj ((fixture_of_holds hhold).symm.trans hx)
    obtain ⟨hlive, hheld⟩ := h.backed.hold v hold hhold
    obtain ⟨y, hy⟩ := VariablePool.isLive_iff.mp hlive
    have hfolded : y.isFolded = false := by
      rw [Tableau.kind_of_get? hy] at hk
      have hflag : y.pinned = false := by
        by_contra hflag
        exact hpin (hs.pinned v y hy (by simpa using hflag))
      simp [Variable.isFolded, hflag, hk]
    rw [Tableau.value_of_not_isFolded hy hfolded]
    exact (hheld hroom).rowValue_eq h.keeping.tableau.faithful hregular hfeasible hk

/-! ### Sessions -/

namespace Session

variable [Scalar Q] [Precision K Q] {s : Session K Q}

/-- A command **overrides** a constant if it is a pin that does. -/
def Overrides (s : Session K Q) : Command K Q → Prop
  | .pin v x => s.solver.Overrides v x
  | _ => False

instance (s : Session K Q) (c : Command K Q) : Decidable (s.Overrides c) :=
  match c with
  | .pin v x => inferInstanceAs (Decidable (s.solver.Overrides v x))
  | .declare _ _ | .add _ _ | .arrange _ _ | .remove _ | .unpin _ | .optimize | .reset
  | .resetCounters => inferInstanceAs (Decidable False)

/-- The copies of all variables agree, if no constant was overridden. -/
theorem Run.copiesAgree (h : s.Run fun s c => s.Proper c ∧ ¬s.Overrides c) :
    ∀ v, s.solver.CopiesAgree (· ∈ s.created) v := by
  induction h with
  | start settings =>
      intro v id c y hc
      exact absurd hc (by simp [Session.start, Solver.empty, Tableau.empty])
  | @step s c hrun hc ih =>
      have hs := hrun.reachable.annotated
      have htracked := (hrun.mono fun _ _ hc => hc.1).tracked
      refine hc.1.keeps (p := fun own solver => ∀ v, solver.CopiesAgree own v) ih hs
        (fun kind stem _ => htracked.copiesAgree_declare kind stem ih) (fun _ v id c y hc => ?_)
        fun hpath hfixed v => ?_
      · exact absurd hc (by simp [Solver.reset, Tableau.reset])
      · by_cases hpin : ∃ x, c = .pin v x ∧ s.solver.tableau.kind v = .constant
        · obtain ⟨x, rfl, hk⟩ := hpin
          exact htracked.copiesAgree_pin hs (hfixed v rfl) hk hc.2 (ih v)
        · exact htracked.copiesAgree_path hs hpath hc.1.2 hfixed
            (fun x hcommand hk => hpin ⟨x, hcommand, hk⟩) (ih v)

/-- **Which values stay.** Let a caller pin and unpin own variables only, and name no variable twice
in a request. A constraint takes in the values of pinned variables, which it lists, and of
constants. A variable that it lists keeps that value as long as the constraint is there; so does a
constant, unless a pin overrode it. A pin that overrides a constant succeeds, and the constraint
stays. In exact arithmetic the value that is kept is the one that a caller is told, if fewer than
2³² constraints were ever added, no hidden one was removed by its handle, and the tableau is
feasible. -/
theorem Run.folded_values (h : s.Run Proper) :
    (∀ request relation id, (s.solver.add request relation).1 = .ok id →
      ∃ c, (s.solver.add request relation).2.tableau.constraints.get? id = some c ∧
        ∀ v ∈ request.expr.vars, (s.solver.isPinned v → v ∈ c.tag.folded) ∧
          (s.solver.isPinned v ∨ s.solver.tableau.kind v = .constant →
            c.values.get? v = some (s.solver.tableau.value v))) ∧
    (∀ id c v y, s.solver.tableau.constraints.get? id = some c → c.values.get? v = some y →
      v ∈ c.tag.folded ∨ s.solver.tableau.kind v = .constant ∧
        s.Run (fun s c => s.Proper c ∧ ¬s.Overrides c) → s.solver.Keeps v y) ∧
    (∀ v x, s.solver.Overrides v x → (s.solver.pin v x).1 = .ok () ∧
      (s.solver.pin v x).2.tableau.value v = Precision.widen x ∧
      ∃ id c, s.solver.tableau.constraints.get? id = some c ∧
        (s.solver.pin v x).2.tableau.constraints.get? id = some c ∧ (c.values.get? v).isSome) ∧
    ∀ r : Session Rat Rat, r.Run (fun r c => r.Proper c ∧ r.Careful c ∧ ¬r.Overrides c) →
      r.solver.tableau.Unwrapped → r.solver.tableau.BasicFeasible →
      ∀ id c v y, r.solver.tableau.constraints.get? id = some c → c.values.get? v = some y →
        v ∈ c.tag.folded ∨ r.solver.tableau.kind v = .constant →
          r.solver.tableau.value v = y := by
  have hs := h.reachable.annotated
  refine ⟨fun request relation id hid => h.tracked.values_add hs hid, fun id c v y hc hy hv => ?_,
    fun v x hover => hover.pin hs h.tracked.booked,
    fun r hr hroom hfeasible id c v y hc hy hv => ?_⟩
  · rcases hv with hv | ⟨hk, hrun⟩
    · exact h.tracked.keeps hs (h.tracked.fixed id c v y hc hy hv)
    · exact h.tracked.keeps_of_copiesAgree hs (hrun.copiesAgree v) hc hy hk
  · have hs := hr.reachable.annotated
    have htracked := (hr.mono fun _ _ hc => hc.1).tracked
    have hsound := (hr.mono fun _ _ hc => hc.2.1).sound
    have hrun : r.Run fun r c => r.Proper c ∧ ¬r.Overrides c :=
      hr.mono fun _ _ hc => ⟨hc.1, hc.2.2⟩
    refine hsound.value_eq_of_keeps hs hroom hr.reachable.regular hfeasible ?_
      (hv.imp_left (htracked.booked.noted_of_mem_folded hs hc))
    rcases hv with hv | hk
    · exact htracked.keeps hs (htracked.fixed id c v y hc hy hv)
    · exact htracked.keeps_of_copiesAgree hs (hrun.copiesAgree v) hc hy hk

/-- A session in which a variable is kept equal to a constant. -/
def levelled : Session Float Float32 :=
  (((start {}).perform (.declare .constant "k")).perform (.declare .external "x")).perform
    (.arrange (.equality ⟨1⟩ ⟨0⟩ 0) .fixed)

/-- A session in which a constraint took in the value of a pinned variable, which was then unpinned
and is held. -/
def spaced : Session Rat Rat :=
  (((((start {}).perform (.declare .external "a")).perform (.declare .external "b")).perform
    (.pin ⟨0⟩ 40)).perform (.arrange (.equality ⟨1⟩ ⟨0⟩ 10) .fixed)).perform (.unpin ⟨0⟩)

/-- The constant keeps its zero until it is pinned to another value, which succeeds: the constraint
then still has the zero. The variable that is held keeps its value. -/
theorem folded_values_of_levelled :
    levelled.solver.Keeps ⟨0⟩ 0 ∧ (levelled.solver.pin ⟨0⟩ 7).1 = .ok () ∧
      (levelled.solver.pin ⟨0⟩ 7).2.tableau.value ⟨0⟩ = Precision.widen (7 : Float32) ∧
      ((levelled.solver.pin ⟨0⟩ 7).2.tableau.constraints.get? ⟨0⟩).map (·.values.get? ⟨0⟩) =
        some (some 0) ∧
      spaced.solver.isHeld ⟨0⟩ ∧ spaced.solver.tableau.value ⟨0⟩ = 40 := by
  have hproper : levelled.Run Proper :=
    .step (.step (.step (.start {}) (by decide +kernel)) (by decide +kernel)) (by decide +kernel)
  have hkept : levelled.Run fun s c => s.Proper c ∧ ¬s.Overrides c :=
    .step (.step (.step (.start {}) (by decide +kernel)) (by decide +kernel)) (by decide +kernel)
  have hspaced : spaced.Run fun s c => s.Proper c ∧ s.Careful c ∧ ¬s.Overrides c :=
    .step (.step (.step (.step (.step (.start {}) (by decide +kernel)) (by decide +kernel))
      (by decide +kernel)) (by decide +kernel)) (by decide +kernel)
  have hzero : (levelled.solver.tableau.constraints.get? ⟨0⟩).map (·.values.get? ⟨0⟩) =
    some (some 0) := by decide +kernel
  have hforty : (spaced.solver.tableau.constraints.get? ⟨0⟩).map
    (fun c => (c.values.get? ⟨0⟩, c.tag.folded)) = some (some 40, [⟨0⟩]) := by decide +kernel
  obtain ⟨c, hc, hvalue⟩ := Option.map_eq_some_iff.mp hzero
  obtain ⟨c', hc', hvalue'⟩ := Option.map_eq_some_iff.mp hforty
  obtain ⟨hvalue', hfolded⟩ := Prod.mk.inj hvalue'
  obtain ⟨-, hkeeps, hoverrides, hexact⟩ := hproper.folded_values
  obtain ⟨hok, hseven, -⟩ := hoverrides ⟨0⟩ 7 (by decide +kernel)
  exact ⟨hkeeps _ c ⟨0⟩ 0 hc hvalue (.inr ⟨by decide +kernel, hkept⟩), hok, hseven,
    by decide +kernel, by decide +kernel,
    hexact spaced hspaced (by decide +kernel) (by decide +kernel) _ c' ⟨0⟩ 40 hc' hvalue'
      (.inl (by simp [hfolded]))⟩

end Session

end LexSimplex
