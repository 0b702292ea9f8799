import Mathlib.Algebra.Order.Field.Basic
import LexSimplex.Proofs.EveryRow

/-!
# Basic-feasible tableaux

A tableau is basic-feasible if its constants are a solution that respects the kinds of the
variables. Exchanges keep this because the row which stops the entering variable first is the
one that gives way, and insertions keep it because a draft starts with a constant that is not
negative. External variables stand only in rows of external variables, so that one of them may
be given any value at any time.

## Main definitions

* `Kind.Admits`: the values that variables of a kind may have.
* `Blocker.Before`: the order in which rows stop a variable.
* `Row.Sheltered`: a row of a variable that is not external mentions no external one.
* `Row.Feasible`: a row is sheltered and stands at a value that its basic variable may have.

## Main results

* `Tableau.BasicFeasible.exchange`: the exchange of a minimisation keeps a tableau feasible.
* `Tableau.BasicFeasible.place`: placing a draft keeps a tableau feasible.
* `Tableau.BasicFeasible.insert`: an insertion keeps a tableau feasible, accepted or not.
-/

namespace LexSimplex

/-- A value that variables of a kind may have. -/
def Kind.Admits (k : Kind) (x : Rat) : Prop :=
  (k.restricted → 0 ≤ x) ∧ (k = .constant → x = 0)

/-- Variables of every kind may be zero. -/
theorem Kind.admits_zero (k : Kind) : k.Admits 0 :=
  ⟨fun _ => le_refl 0, fun _ => rfl⟩

/-- An external variable may have any value. -/
theorem Kind.admits_of_external {k : Kind} (hk : k = .external) (x : Rat) : k.Admits x := by
  subst hk
  exact ⟨fun h => absurd h (by simp [Kind.restricted]), fun h => absurd h (by simp)⟩

/-- A kind leaves its variables free, or ties them to zero, or restricts them. -/
theorem Kind.eq_or_restricted (k : Kind) : k = .external ∨ k = .constant ∨ k.restricted := by
  cases k
  · exact .inl rfl
  · exact .inr (.inr rfl)
  · exact .inr (.inr rfl)
  · exact .inr (.inl rfl)

/-- A restricted variable may have any value that is not negative. -/
theorem Kind.admits_of_nonneg {k : Kind} (hk : k.restricted) {x : Rat} (hx : 0 ≤ x) :
    k.Admits x := by
  refine ⟨fun _ => hx, ?_⟩
  rintro rfl
  exact absurd hk (by simp [Kind.restricted])

/-- A value that is zero is one that variables of every kind may have. -/
theorem Kind.admits_of_eq_zero {k : Kind} {x : Rat} (hx : x = 0) : k.Admits x :=
  hx ▸ k.admits_zero

/-! ### The first to stop a variable -/

namespace Blocker

variable {b x y : Blocker Rat} {bs : List (Blocker Rat)}

/-- One blocker comes **before** another if it stops the variable no later, and has no higher a
handle where both stop it at the same distance. -/
def Before (b x : Blocker Rat) : Prop :=
  b.ratio ≤ x.ratio ∧ (x.ratio = b.ratio → ¬x.basic < b.basic)

/-- A blocker comes before itself. -/
theorem Before.refl (b : Blocker Rat) : b.Before b :=
  ⟨le_refl _, fun _ => Nat.lt_irrefl b.basic.index⟩

/-- Coming before is transitive. -/
theorem Before.trans (h : b.Before x) (h' : x.Before y) : b.Before y := by
  refine ⟨le_trans h.1 h'.1, fun heq => ?_⟩
  have hxb : x.ratio = b.ratio := le_antisymm (heq ▸ h'.1) h.1
  have hfirst := h.2 hxb
  have hsecond := h'.2 (heq.trans hxb.symm)
  rw [VarId.lt_iff, Nat.not_lt] at hfirst hsecond ⊢
  exact Nat.le_trans hfirst hsecond

/-- The better of two blockers comes before both. -/
theorem exists_better (x y : Blocker Rat) :
    ∃ b, better (some x) y = some b ∧ b.Before x ∧ b.Before y := by
  rw [better, sooner]
  by_cases hy : Coefficient.negligible (y.ratio - x.ratio)
  · have heq : y.ratio = x.ratio := sub_eq_zero.mp (negligible_iff.mp hy)
    rw [if_pos hy]
    by_cases hlt : y.basic < x.basic
    · refine ⟨y, if_pos (decide_eq_true hlt), ⟨le_of_eq heq, fun _ => ?_⟩, Before.refl y⟩
      exact Nat.not_lt.mpr (Nat.le_of_lt hlt)
    · exact ⟨x, if_neg (by simpa using hlt), Before.refl x, le_of_eq heq.symm, fun _ => hlt⟩
  · have hne : y.ratio ≠ x.ratio := fun heq => hy (negligible_iff.mpr (sub_eq_zero.mpr heq))
    rw [if_neg hy]
    by_cases hlt : y.ratio < x.ratio
    · exact ⟨y, if_pos (decide_eq_true hlt), ⟨le_of_lt hlt, fun heq => absurd heq.symm hne⟩,
        Before.refl y⟩
    · exact ⟨x, if_neg (by simpa using hlt), Before.refl x, not_lt.mp hlt,
        fun heq => absurd heq hne⟩

/-- The blocker that is chosen comes before all others. -/
theorem before_of_first?_eq_some (h : first? bs = some b) (hx : x ∈ bs) : b.Before x := by
  suffices hfold : ∀ (bs : List (Blocker Rat)) y, bs.foldl better (some y) = some b →
      b.Before y ∧ ∀ x ∈ bs, b.Before x by
    cases bs with
    | nil => exact absurd hx List.not_mem_nil
    | cons y ys =>
        obtain ⟨hy, hys⟩ := hfold ys y h
        rcases List.mem_cons.mp hx with rfl | hx
        · exact hy
        · exact hys x hx
  intro bs
  induction bs with
  | nil =>
      intro y hb
      obtain rfl := Option.some.inj hb
      exact ⟨Before.refl _, fun x hx => absurd hx List.not_mem_nil⟩
  | cons z zs ih =>
      intro y hb
      obtain ⟨w, hw, hwy, hwz⟩ := exists_better y z
      rw [List.foldl_cons, hw] at hb
      obtain ⟨hbw, hbzs⟩ := ih w hb
      refine ⟨hbw.trans hwy, fun x hx => ?_⟩
      rcases List.mem_cons.mp hx with rfl | hx
      · exact hbw.trans hwz
      · exact hbzs x hx

/-- The blocker that is chosen stops the variable first. -/
theorem ratio_le_of_first?_eq_some (h : first? bs = some b) (hx : x ∈ bs) : b.ratio ≤ x.ratio :=
  (before_of_first?_eq_some h hx).1

end Blocker

/-! ### Rows -/

/-- A row is **sheltered** if it defines an external variable or mentions none. -/
def Row.Sheltered (kind : VarId → Kind) (r : Row Rat) : Prop :=
  kind r.basic ≠ .external → ∀ v ∈ r.expr.vars, kind v ≠ .external

/-- A row is **feasible** for kinds of the variables if it stands at a value that its basic
variable may have, and mentions an external variable only where that is one itself. -/
def Row.Feasible (kind : VarId → Kind) (r : Row Rat) : Prop :=
  (kind r.basic).Admits r.expr.constant ∧
    (kind r.basic ≠ .external → ∀ v ∈ r.expr.vars, kind v ≠ .external)

namespace Row

variable {kind : VarId → Kind} {q : Row Rat} {e : LinExpr Rat} {v : VarId}

/-- The row of an external variable is sheltered. -/
theorem sheltered_of_external (hk : kind q.basic = .external) : q.Sheltered kind :=
  fun hne => absurd hk hne

/-- Whether a row is sheltered is a matter of the kinds of its own variables. -/
theorem sheltered_local : Local Sheltered := by
  refine ⟨fun h hb hterm hne w hw => ?_, fun h hq v hne w hw => ?_⟩
  · rw [hterm w hw]
    exact h (hb ▸ hne) w hw
  · exact h hne w ((LinExpr.mem_vars_without hq v w).mp hw).2

/-- What is put in for a variable of a row has to be free of externals if the row needs shelter. -/
theorem Sheltered.substitute (h : q.Sheltered kind) (hq : q.expr.vars.Nodup)
    (hterm : kind q.basic ≠ .external → ∀ w ∈ e.vars, kind w ≠ .external) :
    (q.substitute v e).Sheltered kind := by
  intro hne w hw
  rcases LinExpr.mem_of_mem_substitute hq hw with hw | ⟨-, hw⟩
  · exact hterm hne w hw
  · exact h hne w hw

/-- What is put back for a row whose variable is not external mentions no external variable. -/
theorem Sheltered.term_redefined (h : q.Sheltered kind) (hq : q.expr.vars.Nodup)
    (hb : kind q.basic ≠ .external) :
    ∀ w ∈ (Tableau.redefined q v).expr.vars, kind w ≠ .external := by
  intro w hw
  obtain ⟨-, rfl | hw⟩ := LinExpr.mem_of_mem_exchange hq hw
  · exact hb
  · exact h hb w hw

/-- The row of an external variable is feasible. -/
theorem feasible_of_external (hk : kind q.basic = .external) : q.Feasible kind :=
  ⟨Kind.admits_of_external hk _, sheltered_of_external hk⟩

/-- A feasible row is sheltered. -/
theorem Feasible.sheltered (h : q.Feasible kind) : q.Sheltered kind :=
  h.2

/-- Whether a row is feasible is a matter of the kinds of its own variables. -/
theorem feasible_local : Local Feasible :=
  ⟨fun h hb hterm => ⟨hb ▸ h.1, sheltered_local.congr h.sheltered hb hterm⟩,
    fun h hq v => ⟨h.1, sheltered_local.without h.sheltered hq v⟩⟩

/-- A substitution moves a row by the value that the variable gets. -/
theorem Feasible.substitute (h : q.Feasible kind) (hq : q.expr.vars.Nodup)
    (hvalue : (kind q.basic).Admits (q.expr.constant + q.expr.coefficient v * e.constant))
    (hterm : kind q.basic ≠ .external → ∀ w ∈ e.vars, kind w ≠ .external) :
    (q.substitute v e).Feasible kind := by
  refine ⟨?_, h.sheltered.substitute hq hterm⟩
  rw [Row.substitute, LinExpr.constant_substitute hq]
  exact hvalue

end Row

/-! ### Tableaux -/

namespace Tableau

variable {t t' : Tableau Rat Rat} {r : Row Rat} {v : VarId} {d : Draft Rat}

/-- A tableau is basic-feasible if every row is feasible. -/
theorem basicFeasible_iff : t.BasicFeasible ↔ t.EveryRow Row.Feasible :=
  forall_congr' fun _ => forall_congr' fun _ => and_assoc.symm

/-- Rows that were there before, of variables whose kinds stay. -/
theorem BasicFeasible.of_rows (h : t.BasicFeasible) {out : Option RowId} (hl : t.Linked out)
    (hrows : ∀ r ∈ t'.rows, r ∈ t.rows) (hkind : ∀ v, t.vars.isLive v → t'.kind v = t.kind v) :
    t'.BasicFeasible :=
  basicFeasible_iff.mpr ((basicFeasible_iff.mp h).of_rows Row.feasible_local hl hrows hkind)

/-- Counting keeps a tableau basic-feasible. -/
theorem BasicFeasible.count (h : t.BasicFeasible) (f : Counters → Counters) :
    (t.count f).BasicFeasible :=
  basicFeasible_iff.mpr ((basicFeasible_iff.mp h).count Row.feasible_local f)

/-! ### Exchanges -/

/-- Where a row is put back, the variable that it defines has the value which the old row gives
it. -/
theorem Linked.constant_redefined (h : t.Linked none) (hr : r ∈ t.rows)
    (hcoef : r.expr.coefficient v ≠ 0) :
    (redefined r v).expr.constant = -r.expr.constant / r.expr.coefficient v := by
  have hown : r.basic ∉ r.expr.vars := fun hmem => ((h.row r hr).term _ hmem).2 ⟨r, hr, rfl⟩
  have hv : v ∈ r.expr.vars := by
    by_contra hnot
    exact hcoef (LinExpr.coefficient_of_notMem hnot)
  exact LinExpr.constant_exchange (h.row r hr).nodup hown (ne_of_mem_of_not_mem hv hown) hcoef

/-- A row taken out, and a variable replaced by what the row says of it. -/
theorem BasicFeasible.substitute_detach (h : t.BasicFeasible) (hl : t.Linked none)
    (hr : r ∈ t.rows)
    (hvalue : ∀ s ∈ t.rows, s ≠ r → v ∈ s.expr.vars → (t.kind s.basic).Admits
      (s.expr.constant + s.expr.coefficient v * (redefined r v).expr.constant))
    (hterm : ∀ s ∈ t.rows, s ≠ r → v ∈ s.expr.vars → t.kind s.basic ≠ .external →
      t.kind r.basic ≠ .external) :
    ((t.detach r).substitute v (redefined r v).expr).BasicFeasible := by
  rw [basicFeasible_iff] at h ⊢
  refine h.substitute_detach Row.feasible_local hl hr fun s hs hne hv => ?_
  refine (h s hs).substitute (hl.row s hs).nodup (hvalue s hs hne hv) fun hk => ?_
  exact (h r hr).sheltered.term_redefined (hl.row r hr).nodup (hterm s hs hne hv hk)

/-- An exchange keeps a tableau feasible if it gives every variable a value that it may have. -/
theorem BasicFeasible.redefine (h : t.BasicFeasible) (hl : t.Linked none) (hr : r ∈ t.rows)
    (hb : t.kind r.basic ≠ .external)
    (hown : (t.kind v).Admits (redefined r v).expr.constant)
    (hvalue : ∀ s ∈ t.rows, s ≠ r → v ∈ s.expr.vars → (t.kind s.basic).Admits
      (s.expr.constant + s.expr.coefficient v * (redefined r v).expr.constant)) :
    (t.redefine r v).BasicFeasible := by
  rw [basicFeasible_iff] at h ⊢
  have hterm : ∀ w ∈ (redefined r v).expr.vars, t.kind w ≠ .external :=
    (h r hr).sheltered.term_redefined (hl.row r hr).nodup hb
  refine h.redefine Row.feasible_local hl hr ⟨hown, fun _ => hterm⟩ fun s hs hne hv => ?_
  exact (h s hs).substitute (hl.row s hs).nodup (hvalue s hs hne hv) fun _ => hterm

/-- A restricted variable stops one that would make it fall. -/
theorem blocker?_of_restricted {dir : Direction} (hk : (t.kind r.basic).restricted) :
    t.blocker? v dir r = if r.expr.coefficient v * dir.sign < 0 then
      some ⟨-r.expr.constant / (r.expr.coefficient v * dir.sign), r.basic, r.id⟩ else none := by
  rw [blocker?]
  cases hkind : t.kind r.basic with
  | external => exact absurd hk (by simp [hkind, Kind.restricted])
  | constant => exact absurd hk (by simp [hkind, Kind.restricted])
  | slack => rfl
  | error => rfl

/-- A marker stops every variable at once. -/
theorem blocker?_of_constant {dir : Direction} (hk : t.kind r.basic = .constant) :
    t.blocker? v dir r = some ⟨0, r.basic, r.id⟩ := by
  rw [blocker?, hk]

/-- The row of an external variable blocks nothing. -/
theorem blocker?_of_external {dir : Direction} (hk : t.kind r.basic = .external) :
    t.blocker? v dir r = none := by
  rw [blocker?, hk]

/-- A variable that leaves the basis in a minimisation is not external, as externals stop
nothing. -/
theorem Linked.kind_ne_external_of_leaving? (hl : t.Linked none) {dir : Direction}
    (hr : r ∈ t.rows) (hleave : t.leaving? v dir = some r.id) : t.kind r.basic ≠ .external := by
  obtain ⟨q, hq, -, hid, b, -, hb⟩ := hl.exists_row_of_leaving? hleave
  obtain rfl := hl.eq_of_id_eq hq hr hid
  intro hk
  rw [blocker?_of_external hk] at hb
  exact absurd hb (by simp)

/-- A variable that is not external enters upwards, and is restricted. -/
theorem improving_of_ne_external {vector : TierVector Rat} {dir : Direction}
    (h : t.improving v vector = some dir) (hk : t.kind v ≠ .external) :
    (t.kind v).restricted ∧ dir = .up := by
  rw [improving] at h
  cases hkind : t.kind v with
  | external => exact absurd hkind hk
  | constant =>
      rw [hkind] at h
      exact absurd h (by simp)
  | slack =>
      rw [hkind] at h
      cases hsign : vector.sign <;> simp_all [Kind.restricted]
  | error =>
      rw [hkind] at h
      cases hsign : vector.sign <;> simp_all [Kind.restricted]

/-- A blocker's ratio is the value that the row gives the entering variable. -/
theorem ratio_eq_of_blocker? (h : r.Feasible t.kind) {b : Blocker Rat}
    (hb : t.blocker? v .up r = some b) :
    b.ratio = -r.expr.constant / r.expr.coefficient v ∧ 0 ≤ b.ratio := by
  rcases (t.kind r.basic).eq_or_restricted with hk | hk | hk
  · rw [blocker?_of_external hk] at hb
    exact absurd hb (by simp)
  · rw [blocker?_of_constant hk] at hb
    obtain rfl := Option.some.inj hb
    rw [h.1.2 hk, neg_zero, zero_div]
    exact ⟨rfl, le_refl _⟩
  · have hup : r.expr.coefficient v * Direction.up.sign = r.expr.coefficient v := mul_one _
    rw [blocker?_of_restricted hk, hup] at hb
    by_cases hneg : r.expr.coefficient v < 0
    · rw [if_pos hneg] at hb
      obtain rfl := Option.some.inj hb
      exact ⟨rfl, div_nonneg_of_nonpos (neg_nonpos.mpr (h.1.1 hk)) (le_of_lt hneg)⟩
    · rw [if_neg hneg] at hb
      exact absurd hb (by simp)

/-- A number that falls stays non-negative up to the distance at which it would be zero. -/
theorem nonneg_of_le_ratio {k c x : Rat} (hk : 0 ≤ k) (hx : 0 ≤ x)
    (hle : c < 0 → x ≤ -k / c) : 0 ≤ k + c * x := by
  by_cases hneg : c < 0
  · have hmul := (le_div_iff_of_neg hneg).mp (hle hneg)
    linarith
  · have hmul := mul_nonneg (not_lt.mp hneg) hx
    linarith

/-- A row stays feasible while a variable moves no further than the row allows. -/
theorem admits_of_le_ratio (h : r.Feasible t.kind) {x : Rat} (hx : 0 ≤ x)
    (hle : ∀ b, t.blocker? v .up r = some b → x ≤ b.ratio) :
    (t.kind r.basic).Admits (r.expr.constant + r.expr.coefficient v * x) := by
  rcases (t.kind r.basic).eq_or_restricted with hk | hk | hk
  · exact Kind.admits_of_external hk _
  · have hzero : x = 0 := le_antisymm (hle _ (blocker?_of_constant hk)) hx
    refine Kind.admits_of_eq_zero ?_
    rw [h.1.2 hk, hzero, mul_zero, add_zero]
  · refine Kind.admits_of_nonneg hk (nonneg_of_le_ratio (h.1.1 hk) hx fun hneg => ?_)
    have hup : r.expr.coefficient v * Direction.up.sign = r.expr.coefficient v := mul_one _
    refine hle ⟨-r.expr.constant / r.expr.coefficient v, r.basic, r.id⟩ ?_
    rw [blocker?_of_restricted hk, hup, if_pos hneg]

/-- The **exchange** of a minimisation keeps a tableau feasible: the row that gives way stops the
entering variable first. -/
theorem BasicFeasible.exchange (h : t.BasicFeasible) (hl : t.Linked none) (hn : t.Normal)
    {o : Objective} {dir : Direction} (henter : t.entering? o = some (v, dir))
    (hleave : t.leaving? v dir = some r.id) (hrow : t.row? r.id = some r) :
    (t.redefine r v).BasicFeasible := by
  obtain ⟨hr, hv⟩ := hl.mem_of_leaving? hleave hrow
  obtain ⟨q, hq, -, hid, b, hfirst, hb⟩ := hl.exists_row_of_leaving? hleave
  obtain rfl := hl.eq_of_id_eq hq hr hid
  obtain ⟨vector, -, himproving⟩ := exists_of_entering?_eq_some henter
  have hbasic := hl.kind_ne_external_of_leaving? hr hleave
  obtain ⟨hvkind, rfl⟩ := improving_of_ne_external himproving ((h q hr).2.2 hbasic v hv)
  have hconst := hl.constant_redefined hr ((hn q hr).mem_vars_iff.mp hv)
  rw [basicFeasible_iff] at h
  obtain ⟨hratio, hnonneg⟩ := ratio_eq_of_blocker? (h q hr) hb
  rw [← hratio] at hconst
  refine BasicFeasible.redefine (basicFeasible_iff.mpr h) hl hr hbasic ?_ fun s hs _ hvs => ?_
  · rw [hconst]
    exact Kind.admits_of_nonneg hvkind hnonneg
  · rw [hconst]
    refine admits_of_le_ratio (h s hs) hnonneg fun x hx => ?_
    exact Blocker.ratio_le_of_first?_eq_some hfirst
      (List.mem_filterMap.mpr ⟨s, hl.mem_referring.mpr ⟨hs, hvs⟩, hx⟩)

/-- A **minimisation** keeps a tableau feasible. -/
theorem BasicFeasible.minimise (h : t.BasicFeasible) (hl : t.Linked none) (hn : t.Normal)
    (o : Objective) : (t.minimise o).2.BasicFeasible := by
  refine (minimise_induction (p := fun t => t.Linked none ∧ t.Normal ∧ t.BasicFeasible) ?_ ?_
    ⟨hl, hn, h⟩).2.2
  · rintro t f ⟨hl, hn, h⟩
    exact ⟨hl.count f, hn.of_rows (rows_count t f), h.count f⟩
  · rintro t v dir r ⟨hl, hn, h⟩ henter hleave hrow
    obtain ⟨hr, hv⟩ := hl.mem_of_leaving? hleave hrow
    exact ⟨hl.redefine hr hv, hl.normal_redefine hn hr, h.exchange hl hn henter hleave hrow⟩

/-! ### Variables that go -/

/-- Discarding variables keeps a tableau basic-feasible. -/
theorem BasicFeasible.foldl_discard (h : t.BasicFeasible) (hl : t.Linked none)
    (vs : List VarId) : (vs.foldl Tableau.discard t).BasicFeasible :=
  basicFeasible_iff.mpr ((basicFeasible_iff.mp h).foldl_discard Row.feasible_local hl vs)

/-! ### Placing a draft -/

/-- A draft is solved for its subject: an external variable, which stands only in rows of
external ones, or a variable of the draft's own, which stands nowhere else. -/
theorem BasicFeasible.solved (h : t.BasicFeasible) (hd : t.Admissible d)
    (hconst : 0 ≤ d.expr.constant) (hv : t.subject? d = some v) :
    (t.solved d v).BasicFeasible := by
  have hl := hd.placeable.linked
  rw [basicFeasible_iff] at h ⊢
  rcases subject?_cases hv with ⟨-, hexternal⟩ | ⟨hne, hown, hrestricted, hneg⟩
  · refine h.solved Row.feasible_local hd.placeable (fun s hs hvs => ?_)
      (Row.feasible_of_external hexternal)
    have hk : t.kind s.basic = .external := by
      by_contra hk
      exact (h s hs).sheltered hk v hvs hexternal
    exact (h s hs).substitute (hl.row s hs).nodup (Kind.admits_of_external hk _)
      fun hne => absurd hk hne
  · obtain ⟨-, habsent⟩ := (hd.free_own v hown).absent hl hd.normal
    refine h.solved Row.feasible_local hd.placeable (fun s hs hvs => absurd hvs (habsent s hs))
      ⟨Kind.admits_of_nonneg hrestricted ?_, fun _ w hw => ?_⟩
    · have hsolved :=
        LinExpr.constant_solveFor hd.placeable.nodup (hd.coefficient_subject_ne_zero hv)
      rw [hsolved]
      exact div_nonneg_of_nonpos (neg_nonpos.mpr hconst) (le_of_lt hneg)
    · exact hne w ((LinExpr.mem_vars_solveFor hd.placeable.nodup v w).mp hw).2

/-- A draft may be measured if its constant is not negative and it has no subject. -/
theorem BasicFeasible.measured (h : t.BasicFeasible) (hd : t.Placeable d)
    (hconst : 0 ≤ d.expr.constant) (hv : t.subject? d = none) :
    (t.measured d).BasicFeasible := by
  have hart : (t.measured d).kind t.artificial = .slack := hd.kind_measured_artificial
  rw [basicFeasible_iff] at h ⊢
  refine h.measured Row.feasible_local hd ⟨?_, fun _ w hw => ?_⟩
  · exact Kind.admits_of_nonneg (by rw [hart]; rfl) hconst
  · rw [hd.kind_measured_of_isLive (hd.term w hw).1]
    exact kind_ne_external_of_subject?_eq_none hv w hw

/-- After a measurement the artificial variable's row stands at zero or goes. -/
theorem BasicFeasible.settled {m : Tableau Rat Rat} {art : VarId} (h : m.BasicFeasible)
    (hm : Measures t d art m) {reached : Bool} (hreached : reached → m.isMet .phaseOne) :
    (m.settled d art reached).BasicFeasible := by
  refine basicFeasible_iff.mpr ((basicFeasible_iff.mp h).settled Row.feasible_local hm reached
    fun r hr hart v hv hmet hclear => basicFeasible_iff.mp ?_)
  have hfeasible : ({ m with phaseOne := none } : Tableau Rat Rat).BasicFeasible := h
  have hkind : m.kind r.basic = .slack := hart ▸ hm.kind_eq
  have hcoef := (hm.normal r hr).mem_vars_iff.mp hv
  have hzero : (redefined r v).expr.constant = 0 := by
    rw [hclear.constant_redefined hr hcoef, hm.constant_eq_zero (hreached hmet) hr hart,
      neg_zero, zero_div]
  refine hfeasible.redefine hclear hr ?_ ?_ fun s hs _ _ => ?_
  · exact fun hk => absurd (hkind.symm.trans hk) (by simp)
  · exact Kind.admits_of_eq_zero hzero
  · rw [hzero, mul_zero, add_zero]
    exact ⟨(h s hs).1, (h s hs).2.1⟩

/-- **Placing** a draft keeps a tableau feasible, whether it is accepted or not. -/
theorem BasicFeasible.place (h : t.BasicFeasible) (hd : t.Admissible d)
    (hconst : 0 ≤ d.expr.constant) : (t.place d).2.BasicFeasible := by
  refine basicFeasible_iff.mpr ((basicFeasible_iff.mp h).place Row.feasible_local hd
    (fun v hv => basicFeasible_iff.mp (h.solved hd hconst hv)) (fun hconstant hzero => ⟨?_, ?_⟩)
    fun f hcounted hsubject => basicFeasible_iff.mp ?_)
  · have hcoef := hd.expr_normal.mem_vars_iff.mp hd.mem_marker
    refine Kind.admits_of_eq_zero ?_
    rw [LinExpr.constant_solveFor hd.placeable.nodup hcoef, hzero, neg_zero, zero_div]
  · exact fun _ w hw hk => absurd ((hconstant w hw).symm.trans hk) (by simp)
  · have hmeasures := hcounted.measurable.measures
    have hmeasured := (h.count f).measured hcounted.placeable hconst hsubject
    have hminimised := hmeasured.minimise hmeasures.linked hmeasures.normal .phaseOne
    refine hminimised.settled (hmeasures.minimise .phaseOne) fun hreached => ?_
    rw [reached, Bool.and_eq_true] at hreached
    exact hreached.2

/-- Making a draft changes no row. -/
theorem BasicFeasible.draft (h : t.BasicFeasible) (hl : t.Linked none) (request : Request Rat)
    (relation : Relation) : (t.draft request relation).2.BasicFeasible :=
  basicFeasible_iff.mpr ((basicFeasible_iff.mp h).draft Row.feasible_local hl request relation)

/-- An **insertion** keeps a tableau feasible, accepted or not. -/
theorem BasicFeasible.insert (h : t.BasicFeasible) (hl : t.Linked none) (hn : t.Normal)
    (request : Request Rat) (relation : Relation) :
    (t.insert request relation).2.BasicFeasible := by
  refine basicFeasible_iff.mpr ((basicFeasible_iff.mp h).insert Row.feasible_local hl
    fun hlive => basicFeasible_iff.mp ?_)
  exact (h.draft hl request relation).place (hl.admissible hn hlive relation)
    (hl.stated hlive relation).constant_nonneg

end Tableau

end LexSimplex
