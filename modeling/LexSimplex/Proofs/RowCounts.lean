import LexSimplex.Proofs.Alike.Pools
import LexSimplex.Proofs.Removal

/-!
# Counting rows

How many rows a tableau has after an operation, in any arithmetic. Exchanges keep the number, and
a variable that is discarded takes a row with it exactly if it is basic at that time. So the ledger
of a constraint's own variables is closed by counting which of them are basic: as many rows go with
them as they define.

## Main definitions

* `Tableau.basicCount`: how many of some variables are basic.

## Main results

* `Tableau.Linked.length_rows_minimise`: exchanges keep the number of rows.
* `Tableau.Linked.length_rows_foldl_discard`: a row goes for each basic variable discarded.
* `Tableau.Linked.length_rows_settled_true`: a draft whose trial succeeds keeps its row, unless its
  artificial variable is stuck there.
* `Tableau.Linked.length_rows_withdraw`: how many rows go with a constraint.
-/

namespace LexSimplex

/-- A pool has as many live slots as numbers, if each is listed once. -/
theorem Pool.liveCount_eq_length {β : Type} {p : Pool β} {is : List Nat} (hnodup : is.Nodup)
    (h : ∀ i, p.isLive i ↔ i ∈ is) : p.liveCount = is.length := by
  have hslots := p.slots_append_eq_map (Nat.le_refl _)
  rw [Nat.sub_self, List.replicate_zero, List.append_nil] at hslots
  have hfilter : ((List.range p.slots.length).filter p.isLive).Perm is := by
    refine (List.perm_ext_iff_of_nodup (List.nodup_range.filter _) hnodup).mpr fun i => ?_
    rw [List.mem_filter, List.mem_range, ← h i]
    exact and_iff_right_of_imp lt_highWater_of_isLive
  rw [liveCount, hslots, List.countP_map, List.countP_eq_length_filter]
  exact hfilter.length_eq

namespace Tableau

variable {K Q : Type} {t t' : Tableau K Q} {r : Row K} {v : VarId}

instance (t : Tableau K Q) (v : VarId) : Decidable (t.IsBasic v) :=
  inferInstanceAs (Decidable (∃ r ∈ t.rows, r.basic = v))

/-- The number of variables among `vs` that are basic. -/
def basicCount (t : Tableau K Q) (vs : List VarId) : Nat :=
  vs.countP fun v => t.IsBasic v

/-- Basic variables are counted one by one. -/
theorem basicCount_cons (t : Tableau K Q) (v : VarId) (vs : List VarId) :
    t.basicCount (v :: vs) = t.basicCount vs + if t.IsBasic v then 1 else 0 := by
  rw [basicCount, List.countP_cons]
  simp [basicCount]

/-- The number depends on which of the variables are basic. -/
theorem basicCount_congr {vs : List VarId} (h : ∀ v ∈ vs, t'.IsBasic v ↔ t.IsBasic v) :
    t'.basicCount vs = t.basicCount vs :=
  List.countP_congr fun v hv => by simpa using h v hv

/-- Where none of the variables is basic there is none to count. -/
theorem basicCount_eq_zero {vs : List VarId} (h : ∀ v ∈ vs, ¬t.IsBasic v) :
    t.basicCount vs = 0 :=
  List.countP_eq_zero.mpr fun v hv => by simpa using h v hv

/-- Attaching a row makes one more. -/
theorem length_rows_attach (t : Tableau K Q) (r : Row K) :
    (t.attach r).rows.length = t.rows.length + 1 := by
  rw [rows_attach, List.length_append, List.length_singleton]

/-- Detaching a row leaves one less. -/
theorem length_rows_detach (t : Tableau K Q) (hr : r ∈ t.rows) :
    (t.detach r).rows.length + 1 = t.rows.length := by
  have hperm := (List.swapErase_perm (fun x : Row K => decide (x.id = r.id)) t.rows).length_eq
  have herase := List.length_eraseP_of_mem (p := fun x : Row K => decide (x.id = r.id)) hr (by simp)
  have hpos := List.length_pos_of_mem hr
  have hrows : (t.detach r).rows.length =
      (t.rows.swapErase fun x => decide (x.id = r.id)).length := rfl
  omega

variable [Coefficient K]

/-- Replacing a variable leaves as many rows. -/
theorem length_rows_substitute (t : Tableau K Q) (v : VarId) (d : LinExpr K) :
    (t.substitute v d).rows.length = t.rows.length :=
  List.length_map _

/-- There is a live slot for each row. -/
theorem Linked.liveCount_rowSlots (h : t.Linked none) : t.rowSlots.liveCount = t.rows.length := by
  have hnodup : (t.rows.map fun r => r.id.index).Nodup := by
    have hids := h.nodup_ids.map fun _ _ => RowId.eq_of_index_eq
    rwa [List.map_map] at hids
  rw [Pool.liveCount_eq_length hnodup, List.length_map]
  intro i
  rw [h.slot_iff ⟨i⟩, or_iff_left (by simp), List.mem_map]
  exact exists_congr fun r => and_congr_right fun _ => ⟨congrArg RowId.index, RowId.eq_of_index_eq⟩

/-- A row that is made to define another variable stays one row. -/
theorem length_rows_redefine (t : Tableau K Q) (hr : r ∈ t.rows) (v : VarId) :
    (t.redefine r v).rows.length = t.rows.length := by
  rw [redefine_eq, length_rows_attach, length_rows_substitute]
  exact t.length_rows_detach hr

/-- Exchanges keep the number of rows. -/
theorem Linked.length_rows_minimise (h : t.Linked none) (o : Objective) :
    (t.minimise o).2.rows.length = t.rows.length := by
  have hkept : (t.minimise o).2.Linked none ∧ (t.minimise o).2.rows.length = t.rows.length := by
    refine minimise_induction (p := fun t' => t'.Linked none ∧ t'.rows.length = t.rows.length)
      ?_ ?_ ⟨h, rfl⟩
    · rintro t' f ⟨hlinked, hlength⟩
      exact ⟨hlinked.count f, by rw [rows_count, hlength]⟩
    · rintro t' v d r ⟨hlinked, hlength⟩ - hleave hrow
      obtain ⟨hr, hv⟩ := hlinked.mem_of_leaving? hleave hrow
      exact ⟨hlinked.redefine hr hv, by rw [t'.length_rows_redefine hr, hlength]⟩
  exact hkept.2

/-! ### Variables that go -/

/-- A variable that is discarded takes its row with it. -/
theorem Linked.length_rows_discard (h : t.Linked none) (v : VarId) :
    (t.discard v).rows.length + (if t.IsBasic v then 1 else 0) = t.rows.length := by
  have hforget : (t.discard v).rows.length = (t.undefine v).rows.length := List.length_map _
  rw [hforget, Tableau.undefine]
  cases hdef : t.definition? v with
  | none => rw [if_neg (h.definition?_eq_none_iff.mp hdef), Nat.add_zero]
  | some r =>
      obtain ⟨hr, hrv⟩ := h.definition?_eq_some_iff.mp hdef
      rw [if_pos ⟨r, hr, hrv⟩]
      exact t.length_rows_detach hr

/-- Discarding a variable leaves the other basic variables. -/
theorem Linked.isBasic_discard (h : t.Linked none) (v w : VarId) :
    (t.discard v).IsBasic w ↔ t.IsBasic w ∧ w ≠ v := by
  have hforget : (t.discard v).IsBasic w ↔ (t.undefine v).IsBasic w :=
    (h.undefine v).1.isBasic_forget v w
  rw [hforget, IsBasic]
  simp only [h.mem_rows_undefine]
  constructor
  · rintro ⟨r, ⟨hr, hrv⟩, rfl⟩
    exact ⟨⟨r, hr, rfl⟩, hrv⟩
  · rintro ⟨⟨r, hr, rfl⟩, hne⟩
    exact ⟨r, ⟨hr, hne⟩, rfl⟩

/-- Distinct variables that are discarded take as many rows with them as they define. -/
theorem Linked.length_rows_foldl_discard (h : t.Linked none) {vs : List VarId} (hvs : vs.Nodup) :
    (vs.foldl Tableau.discard t).rows.length + t.basicCount vs = t.rows.length := by
  induction vs generalizing t with
  | nil => rfl
  | cons v vs ih =>
      obtain ⟨hv, hvs⟩ := List.nodup_cons.mp hvs
      have hrest : (t.discard v).basicCount vs = t.basicCount vs :=
        basicCount_congr fun w hw => by
          rw [h.isBasic_discard, and_iff_left (ne_of_mem_of_not_mem hw hv)]
      have hfold := ih (h.discard v) hvs
      have hone := h.length_rows_discard v
      rw [List.foldl_cons, basicCount_cons]
      omega

/-! ### A measured draft -/

/-- A variable is **stuck** in its row if nothing in the row could take its place. -/
def Stuck (t : Tableau K Q) (a marker : VarId) : Prop :=
  ∃ r ∈ t.rows, r.basic = a ∧ t.successor? r.expr marker = none

instance (t : Tableau K Q) (a marker : VarId) : Decidable (t.Stuck a marker) :=
  inferInstanceAs (Decidable (∃ r ∈ t.rows, r.basic = a ∧ t.successor? r.expr marker = none))

/-- Where zero was not reached, settling a draft is discarding its artificial variable. By the time
that the variable is discarded its row is gone, and does not go twice. -/
theorem Linked.settled_false (h : t.Linked none) (d : Draft K) (a : VarId) :
    t.settled d a false = ({ t with phaseOne := none } : Tableau K Q).discard a := by
  have hclear := h.withoutPhaseOne
  obtain ⟨hundefined, -, hbasic⟩ := hclear.undefine a
  have hretire : ({ t with phaseOne := none } : Tableau K Q).retire a d.constraint.tag.marker
      false = ({ t with phaseOne := none } : Tableau K Q).undefine a := by
    rw [Tableau.retire, Tableau.undefine]
    cases ({ t with phaseOne := none } : Tableau K Q).definition? a <;> rfl
  have htwice : (({ t with phaseOne := none } : Tableau K Q).undefine a).undefine a =
      ({ t with phaseOne := none } : Tableau K Q).undefine a := by
    rw [Tableau.undefine, hundefined.definition?_eq_none_iff.mpr hbasic]
  rw [settled, hretire, Tableau.discard, Tableau.discard, purge_eq, purge_eq, htwice]

/-- Where zero was reached, the row of a draft stays, unless its artificial variable is stuck there.
Once it is retired, the artificial variable defines no row. -/
theorem Linked.length_rows_settled_true (h : t.Linked none) (d : Draft K) (a : VarId) :
    (t.settled d a true).rows.length + (if t.Stuck a d.constraint.tag.marker then 1 else 0) =
      t.rows.length := by
  set t₀ : Tableau K Q := { t with phaseOne := none } with ht₀
  have hclear : t₀.Linked none := h.withoutPhaseOne
  have hsettled : t.settled d a true = (t₀.retire a d.constraint.tag.marker true).discard a := rfl
  have hdone : ∀ {t' : Tableau K Q}, t'.Linked none → ¬t'.IsBasic a →
      (t'.discard a).rows.length = t'.rows.length := by
    intro t' h' hbasic
    have hone := h'.length_rows_discard a
    rwa [if_neg hbasic, Nat.add_zero] at hone
  rw [hsettled, Tableau.retire]
  cases hdef : t₀.definition? a with
  | none =>
      have hbasic : ¬t₀.IsBasic a := hclear.definition?_eq_none_iff.mp hdef
      have hstuck : ¬t.Stuck a d.constraint.tag.marker := by
        rintro ⟨r, hr, hra, -⟩
        exact hbasic ⟨r, hr, hra⟩
      rw [if_neg hstuck]
      exact hdone hclear hbasic
  | some r =>
      obtain ⟨hr, rfl⟩ := hclear.definition?_eq_some_iff.mp hdef
      dsimp only
      rw [if_pos rfl]
      cases hnext : t₀.successor? r.expr d.constraint.tag.marker with
      | none =>
          have hstuck : t.Stuck r.basic d.constraint.tag.marker := ⟨r, hr, rfl, hnext⟩
          have hbasic : ¬(t₀.dropRow r).IsBasic r.basic := fun hb =>
            ((hclear.isBasic_detach hr r.basic).mp hb).2 rfl
          rw [if_pos hstuck, hdone (hclear.dropRow hr) hbasic]
          exact t₀.length_rows_detach hr
      | some v =>
          have hv := mem_of_successor?_eq_some hnext
          have hstuck : ¬t.Stuck r.basic d.constraint.tag.marker := by
            rintro ⟨q, hq, hqr, hnone⟩
            rw [hclear.eq_of_basic_eq (s := r) hq hr hqr] at hnone
            rw [show t₀.successor? r.expr d.constraint.tag.marker = none from hnone] at hnext
            exact absurd hnext (by simp)
          have hbasic : ¬(t₀.redefine r v).IsBasic r.basic := by
            rw [hclear.isBasic_redefine hr]
            rintro (hrv | ⟨-, hne⟩)
            · exact ((hclear.row r hr).term v hv).2 ⟨r, hr, hrv⟩
            · exact hne rfl
          rw [if_neg hstuck, Nat.add_zero, hdone (hclear.redefine hr hv) hbasic]
          exact t₀.length_rows_redefine hr v

/-! ### A constraint that goes -/

/-- A marker is **visible** if it is basic, or stands in a row with a coefficient that is not
negligible. This is how its equation is found again. -/
def Visible (t : Tableau K Q) (marker : VarId) : Prop :=
  t.IsBasic marker ∨ ∃ r ∈ t.rows, marker ∈ r.expr.vars ∧
    ¬Coefficient.negligible (r.expr.coefficient marker)

instance (t : Tableau K Q) (marker : VarId) : Decidable (t.Visible marker) :=
  inferInstanceAs (Decidable (t.IsBasic marker ∨ ∃ r ∈ t.rows, marker ∈ r.expr.vars ∧
    ¬Coefficient.negligible (r.expr.coefficient marker)))

/-- An equation is taken out if its marker is visible, and one row goes with it. -/
theorem Linked.length_rows_removeEquation (h : t.Linked none) (marker : VarId) :
    (t.removeEquation marker).rows.length + (if t.Visible marker then 1 else 0) =
      t.rows.length := by
  refine removeEquation_cases (p := fun t' => t'.rows.length +
    (if t.Visible marker then 1 else 0) = t.rows.length) ?_ ?_ ?_
  · intro r hdef
    obtain ⟨hr, hb⟩ := h.definition?_eq_some_iff.mp hdef
    rw [if_pos (.inl ⟨r, hr, hb⟩)]
    exact t.length_rows_detach hr
  · intro r _ hrow
    obtain ⟨hr, hmem, hcoefficient⟩ := h.mem_marked.mp (h.markerRow?_cases hrow).1
    rw [if_pos (.inr ⟨r, hr, hmem, hcoefficient⟩)]
    refine Eq.trans (congrArg (· + 1) ?_) (t.length_rows_detach hr)
    exact length_rows_substitute _ _ _
  · intro hdef hrow
    have hhidden : ¬t.Visible marker := by
      rintro (hbasic | ⟨r, hr, hmem, hcoefficient⟩)
      · exact h.definition?_eq_none_iff.mp hdef hbasic
      · have hmarked := h.mem_marked.mpr ⟨hr, hmem, hcoefficient⟩
        rw [h.marked_eq_nil hrow] at hmarked
        exact absurd hmarked List.not_mem_nil
    rw [if_neg hhidden, Nat.add_zero]

/-- The number of rows that go with a constraint: the row of its equation, if its marker is
visible, and the rows that its variables define after that. -/
def uprooted (t : Tableau K Q) (id : ConstraintId) (tag : Tag) : Nat :=
  (if t.Visible tag.marker then 1 else 0) +
    ((t.unlisted id tag).removeEquation tag.marker).basicCount tag.vars

/-- Withdrawing a constraint takes out the rows that it uproots. -/
theorem Linked.length_rows_withdraw (h : t.Linked none) (id : ConstraintId) {tag : Tag}
    (hnodup : tag.vars.Nodup) :
    (t.withdraw id tag).rows.length + t.uprooted id tag = t.rows.length := by
  have hunlisted := h.unlisted id tag
  have hrows := t.rows_unlisted id tag
  have hvisible : (t.unlisted id tag).Visible tag.marker ↔ t.Visible tag.marker := by
    rw [Visible, Visible, isBasic_congr hrows, hrows]
  have hequation := hunlisted.length_rows_removeEquation tag.marker
  have hown := (hunlisted.removeEquation tag.marker).1.length_rows_foldl_discard hnodup
  simp only [hvisible, hrows] at hequation
  rw [withdraw_eq, uprooted]
  omega

end Tableau

end LexSimplex
