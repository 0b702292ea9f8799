import LexSimplex.Proofs.HardRequests

/-!
# Removals that displace a redundant equality

A removal brings the marker of its constraint into the basis. If a variable that is not external
falls with the marker, the marker grows until the first of these is zero, and every variable that
rises with it is moved up. A restricted variable may be moved up, but the marker of a redundant
equality, which is basic at zero, may not: its equality no longer holds then. This is the only way
in which a removal can spoil a basic-feasible tableau.

## Main definitions

* `Tableau.Regular`: the own variables of constraints are of the kinds that they were made with.
* `Tableau.Displaces`: to bring a marker into the basis moves another marker away from zero.

## Main results

* `Tableau.BasicFeasible.removeEquation`: a removal that displaces nothing keeps a tableau
  feasible.
* `Tableau.Regular.basicFeasible_withdraw_iff`: no other removal does.
-/

namespace LexSimplex

namespace Tableau

variable {t t' : Tableau Rat Rat} {m : VarId} {r : Row Rat} {id : ConstraintId}
  {c : Constraint Rat}

/-! ### Regular tableaux -/

/-- A well-formed tableau with normal rows is **regular** if the own variables of each constraint
are of the kinds of its parts. -/
structure Regular (t : Tableau Rat Rat) : Prop where
  wellFormed : t.WellFormed
  normal : t.Normal
  kinds : ∀ id c, t.constraints.get? id = some c →
    c.tag.vars.map t.kind = (parts c.request c.relation).map Part.kind

/-- A tableau stays regular if no constraint is new and the kinds of own variables stay. -/
theorem Regular.of_kind_eq (h : t.Regular) (hwell : t'.WellFormed) (hn : t'.Normal)
    (hcons : ∀ id c, t'.constraints.get? id = some c →
      t.constraints.get? id = some c ∧ ∀ v ∈ c.tag.vars, t'.kind v = t.kind v) :
    t'.Regular := by
  refine ⟨hwell, hn, fun id c hc => ?_⟩
  obtain ⟨hc, hkind⟩ := hcons id c hc
  rw [← h.kinds id c hc]
  exact List.map_congr_left hkind

/-- A tableau stays regular if the constraints are the same and all variables keep their kinds. -/
theorem Regular.of_constraints_eq (h : t.Regular) (hwell : t'.WellFormed) (hn : t'.Normal)
    (hcons : t'.constraints = t.constraints)
    (hkind : ∀ v, t.vars.isLive v → t'.kind v = t.kind v) : t'.Regular := by
  refine h.of_kind_eq hwell hn fun id c hc => ?_
  rw [hcons] at hc
  exact ⟨hc, fun v hv => hkind v (h.wellFormed.owned.isLive id c hc v hv)⟩

/-- An insertion keeps a tableau regular. -/
theorem Regular.insert (h : t.Regular) (request : Request Rat) (relation : Relation) :
    (t.insert request relation).2.Regular := by
  have hlinked := h.wellFormed.linked
  obtain ⟨hwell, hkeeps⟩ := h.wellFormed.insert request relation
  obtain ⟨hnormal, -, -⟩ := hlinked.satisfies_insert h.normal request relation
  obtain ⟨hentered, hkept⟩ := hlinked.constraints_insert request relation
  have hkind : ∀ v, t.vars.isLive v → (t.insert request relation).2.kind v = t.kind v :=
    fun v hv => hkeeps.kind_eq List.not_mem_nil hv
  cases hresult : (t.insert request relation).1 with
  | error fault => exact h.of_constraints_eq hwell hnormal (hkept fault hresult) hkind
  | ok id =>
      obtain ⟨rfl, -, hcons⟩ := hentered id hresult
      have hdrafted := hlinked.draft request relation
      refine ⟨hwell, hnormal, ?_⟩
      rw [hcons]
      refine Assoc.forall_get?_insert_of_forall ?_ fun id c hc => ?_
      · rw [hdrafted.request_eq, hdrafted.relation_eq]
        exact hlinked.kinds_insert request relation _ hresult
      · rw [← h.kinds id c hc]
        exact List.map_congr_left fun v hv =>
          hkind v (h.wellFormed.owned.isLive id c hc v hv)

/-- Withdrawing a constraint keeps a tableau normal. -/
theorem Linked.normal_withdraw (h : t.Linked none) (hn : t.Normal) (id : ConstraintId)
    (tag : Tag) : (t.withdraw id tag).Normal := by
  have hunlisted := h.unlisted id tag
  obtain ⟨hnormal, -⟩ := hunlisted.satisfies_removeEquation
    (hn.of_rows (rows_unlisted t id tag)) tag.marker
  exact (hunlisted.removeEquation tag.marker).1.normal_foldl_discard hnormal tag.vars

/-- Withdrawing a constraint keeps a tableau regular. -/
theorem Regular.withdraw (h : t.Regular) (hc : t.constraints.get? id = some c) :
    (t.withdraw id c.tag).Regular := by
  obtain ⟨hwell, hkeeps⟩ := h.wellFormed.withdraw hc
  have howned := h.wellFormed.owned
  refine h.of_kind_eq hwell (h.wellFormed.linked.normal_withdraw h.normal id c.tag) ?_
  rw [constraints_withdraw, Assoc.forall_get?_erase]
  refine fun id' c' hid hc' => ⟨hc', fun v hv => ?_⟩
  refine hkeeps.kind_eq (fun hmem => hid ?_) (howned.isLive id' c' hc' v hv)
  exact howned.disjoint id' c' id c hc' hc v hv hmem

/-- Minimisation keeps a tableau regular. -/
theorem Regular.minimise (h : t.Regular) (o : Objective) : (t.minimise o).2.Regular := by
  have hlinked := h.wellFormed.linked
  obtain ⟨hnormal, -⟩ := hlinked.satisfies_minimise h.normal o
  exact h.of_constraints_eq (h.wellFormed.minimise o) hnormal (constraints_minimise o t)
    fun v _ => (hlinked.sameVars_minimise o).kind_eq v

/-- A new variable keeps a tableau regular. -/
theorem Regular.addVariable (h : t.Regular) (kind : Kind) (stem : Option String) :
    (t.addVariable kind stem).2.Regular :=
  h.of_constraints_eq (h.wellFormed.addVariable kind stem)
    (h.normal.of_rows (rows_addVariable t kind stem)) (constraints_addVariable t kind stem)
    fun _ hv => (t.continues_addVariable kind stem).kind_eq hv

/-- Settling values keeps a tableau regular. -/
theorem Regular.settle (h : t.Regular) : t.settle.Regular :=
  h.of_constraints_eq h.wellFormed.settle h.normal rfl fun _ hv => t.continues_settle.kind_eq hv

/-- Resetting the counters keeps a tableau regular. -/
theorem Regular.resetCounters (h : t.Regular) :
    ({ t with counters := {} } : Tableau Rat Rat).Regular :=
  h.of_constraints_eq (h.wellFormed.of_links rfl rfl rfl rfl rfl (fun _ => rfl) (Nat.le_refl _))
    h.normal rfl fun _ _ => rfl

/-- Regularity is kept, whatever the requests name. -/
theorem closed_regular (named : VarId → Prop) : Closed named Tableau.Regular := by
  refine ⟨fun t request relation _ h => h.insert request relation, fun t id h => ?_,
    fun t v x h => ?_, fun t v h => ?_, fun t f h => ?_⟩
  · exact remove_cases (p := fun result => result.2.Regular) (fun _ => h)
      fun _ hc => h.withdraw hc
  · exact h.of_constraints_eq (h.wellFormed.modifyVar v fun _ => rfl) h.normal rfl
      fun w _ => kind_modifyVar t v (f := (·.pin x)) (fun _ => rfl) w
  · exact h.of_constraints_eq (h.wellFormed.modifyVar v fun _ => rfl) h.normal rfl
      fun w _ => kind_modifyVar t v (f := Variable.unpin) (fun _ => rfl) w
  · exact h.of_constraints_eq (h.wellFormed.count f) (h.normal.of_rows (rows_count t f))
      (constraints_count t f) fun w _ => kind_count t f w

/-- All parts of a request but the first are error variables. -/
theorem kind_of_mem_tail_parts (request : Request Rat) (relation : Relation) :
    ∀ p ∈ (parts request relation).tail, p.kind = .error := by
  have herrors : ∀ p ∈ request.errors.map Part.ofError, p.kind = .error := by
    intro p hp
    obtain ⟨e, -, rfl⟩ := List.mem_map.mp hp
    rfl
  intro p hp
  cases hhard : request.strength.hard <;> cases relation <;>
    simp only [parts, relationParts, equalityParts, inequalityParts, hhard, if_true,
      Bool.false_eq_true, if_false, List.cons_append, List.nil_append, List.tail_cons,
      List.mem_cons] at hp
  all_goals first
    | exact herrors p hp
    | rcases hp with rfl | hp
      · rfl
      · exact herrors p hp

/-- No variable of a constraint but its marker is at zero for good. -/
theorem Regular.kind_ne_constant (h : t.Regular) (hc : t.constraints.get? id = some c)
    {v : VarId} (hv : v ∈ c.tag.vars) (hne : v ≠ c.tag.marker) : t.kind v ≠ .constant := by
  have htail := congrArg List.tail (h.kinds id c hc)
  rw [Tag.vars, List.map_cons, List.tail_cons, ← List.map_tail] at htail
  rcases List.mem_cons.mp hv with rfl | hv
  · exact absurd rfl hne
  · have hmem := List.mem_map_of_mem (f := t.kind) hv
    rw [htail] at hmem
    obtain ⟨p, hp, hkind⟩ := List.mem_map.mp hmem
    rw [← hkind, kind_of_mem_tail_parts _ _ p hp]
    simp

/-! ### Displacement -/

/-- To bring the marker `m` into the basis **displaces** another marker if that one is basic and
rises with `m`, while `m` must grow: some variable that is not external falls with it, and no
such variable is zero already. -/
structure Displaces (t : Tableau Rat Rat) (m : VarId) : Prop where
  lifted : ∃ s ∈ t.rows, t.kind s.basic = .constant ∧ 0 < s.expr.coefficient m
  blocked : ∃ s ∈ t.rows, t.kind s.basic ≠ .external ∧ s.expr.coefficient m < 0
  distant : ∀ s ∈ t.rows, t.kind s.basic ≠ .external → s.expr.coefficient m < 0 →
    0 < s.expr.constant

instance (t : Tableau Rat Rat) (m : VarId) : Decidable (t.Displaces m) :=
  decidable_of_iff
    ((∃ s ∈ t.rows, t.kind s.basic = .constant ∧ 0 < s.expr.coefficient m) ∧
      (∃ s ∈ t.rows, t.kind s.basic ≠ .external ∧ s.expr.coefficient m < 0) ∧
      ∀ s ∈ t.rows, t.kind s.basic ≠ .external → s.expr.coefficient m < 0 →
        0 < s.expr.constant)
    ⟨fun h => ⟨h.1, h.2.1, h.2.2⟩, fun h => ⟨h.lifted, h.blocked, h.distant⟩⟩

/-- In a feasible tableau a row whose variable is not external has no negative constant. -/
theorem BasicFeasible.constant_nonneg (h : t.BasicFeasible) (hr : r ∈ t.rows)
    (hk : t.kind r.basic ≠ .external) : 0 ≤ r.expr.constant := by
  rcases (t.kind r.basic).eq_or_restricted with hkind | hkind | hkind
  · exact absurd hkind hk
  · exact ge_of_eq ((h r hr).2.1 hkind)
  · exact (h r hr).1 hkind

/-- A row in which the marker has a coefficient is marked. -/
theorem Linked.mem_marked_of_ne_zero (hl : t.Linked none) (hr : r ∈ t.rows)
    (hcoef : r.expr.coefficient m ≠ 0) : r ∈ t.marked m := by
  refine hl.mem_marked.mpr ⟨hr, ?_, fun hz => hcoef (negligible_iff.mp hz)⟩
  by_contra hnot
  exact hcoef (LinExpr.coefficient_of_notMem hnot)

/-- Where the row that stops the marker's growth first is given up, every other row that falls
with the marker still has a constant that is not negative. -/
theorem Linked.le_ratio_of_growthBlocker? (hl : t.Linked none) {b : Blocker Rat}
    (hfirst : Blocker.first? ((t.marked m).filterMap (t.growthBlocker? m)) = some b)
    {s : Row Rat} (hs : s ∈ t.rows) (hk : t.kind s.basic ≠ .external)
    (hneg : s.expr.coefficient m < 0) :
    b.ratio ≤ -s.expr.constant / s.expr.coefficient m := by
  have hsome := growthBlocker?_eq_some_iff.mpr ⟨⟨hk, hneg⟩, rfl⟩
  have hmarked := hl.mem_marked_of_ne_zero hs (ne_of_lt hneg)
  exact Blocker.ratio_le_of_first?_eq_some hfirst
    (List.mem_filterMap.mpr ⟨s, hmarked, hsome⟩)

/-- A marker that grows until the first row stops it leaves the others feasible, unless it
displaces another marker. -/
theorem BasicFeasible.admits_growth (h : t.BasicFeasible) (hl : t.Linked none)
    (hnot : ¬t.Displaces m) {b : Blocker Rat}
    (hfirst : Blocker.first? ((t.marked m).filterMap (t.growthBlocker? m)) = some b)
    (hr : r ∈ t.rows) (hb : t.growthBlocker? m r = some b) {s : Row Rat} (hs : s ∈ t.rows) :
    (t.kind s.basic).Admits (s.expr.constant + s.expr.coefficient m * b.ratio) := by
  obtain ⟨⟨hrk, hrneg⟩, rfl⟩ := growthBlocker?_eq_some_iff.mp hb
  have hnonneg : 0 ≤ -r.expr.constant / r.expr.coefficient m :=
    div_nonneg_of_nonpos (neg_nonpos.mpr (h.constant_nonneg hr hrk)) (le_of_lt hrneg)
  have hle := fun (q : Row Rat) hq hk hneg =>
    hl.le_ratio_of_growthBlocker? hfirst (s := q) hq hk hneg
  dsimp only at hle ⊢
  rcases (t.kind s.basic).eq_or_restricted with hk | hk | hk
  · exact Kind.admits_of_external hk _
  · have hconst := (h s hs).2.1 hk
    have hmoves : s.expr.coefficient m = 0 ∨ -r.expr.constant / r.expr.coefficient m = 0 := by
      rcases lt_trichotomy (s.expr.coefficient m) 0 with hneg | hzero | hpos
      · have hbound := hle s hs (by simp [hk]) hneg
        rw [hconst, neg_zero, zero_div] at hbound
        exact .inr (le_antisymm hbound hnonneg)
      · exact .inl hzero
      · by_contra hne
        refine hnot ⟨⟨s, hs, hk, hpos⟩, ⟨r, hr, hrk, hrneg⟩, fun q hq hqk hqneg => ?_⟩
        refine lt_of_le_of_ne (h.constant_nonneg hq hqk) fun hq0 => hne (.inr ?_)
        have hbound := hle q hq hqk hqneg
        rw [← hq0, neg_zero, zero_div] at hbound
        exact le_antisymm hbound hnonneg
    refine Kind.admits_of_eq_zero ?_
    rw [hconst, zero_add, mul_eq_zero]
    exact hmoves
  · refine Kind.admits_of_nonneg hk (nonneg_of_le_ratio ((h s hs).1 hk) hnonneg ?_)
    exact hle s hs fun hexternal => absurd (hexternal ▸ hk) (by simp [Kind.restricted])

/-- A marker that falls until the first row is zero leaves the others feasible: nothing stops its
growth, so markers that are basic do not move. -/
theorem BasicFeasible.admits_fall (h : t.BasicFeasible) (hl : t.Linked none)
    (hnil : (t.marked m).filterMap (t.growthBlocker? m) = []) {b : Blocker Rat}
    (hfirst : Blocker.first? ((t.marked m).filterMap (t.riser? m)) = some b)
    (hr : r ∈ t.rows) (hb : t.riser? m r = some b) {s : Row Rat} (hs : s ∈ t.rows) :
    (t.kind s.basic).Admits (s.expr.constant + s.expr.coefficient m * -b.ratio) := by
  obtain ⟨⟨hrk, hrpos⟩, rfl⟩ := riser?_eq_some_iff.mp hb
  have hnonneg : 0 ≤ r.expr.constant / r.expr.coefficient m :=
    div_nonneg (h.constant_nonneg hr hrk) (not_lt.mp hrpos)
  have hle : t.kind s.basic ≠ .external → s.expr.coefficient m ≠ 0 →
      0 < s.expr.coefficient m ∧
        r.expr.constant / r.expr.coefficient m ≤ s.expr.constant / s.expr.coefficient m := by
    intro hk hcoef
    have hmarked := hl.mem_marked_of_ne_zero hs hcoef
    have hpos : ¬s.expr.coefficient m < 0 := by
      intro hneg
      have hsome := growthBlocker?_eq_some_iff.mpr ⟨⟨hk, hneg⟩, rfl⟩
      rw [List.filterMap_eq_nil_iff.mp hnil s hmarked] at hsome
      exact absurd hsome (by simp)
    have hsome := riser?_eq_some_iff.mpr ⟨⟨hk, hpos⟩, rfl⟩
    exact ⟨lt_of_le_of_ne (not_lt.mp hpos) hcoef.symm,
      Blocker.ratio_le_of_first?_eq_some hfirst (List.mem_filterMap.mpr ⟨s, hmarked, hsome⟩)⟩
  dsimp only
  rcases (t.kind s.basic).eq_or_restricted with hk | hk | hk
  · exact Kind.admits_of_external hk _
  · refine Kind.admits_of_eq_zero ?_
    have hconst := (h s hs).2.1 hk
    rcases eq_or_ne (s.expr.coefficient m) 0 with hzero | hcoef
    · rw [hconst, hzero, zero_mul, add_zero]
    · obtain ⟨-, hbound⟩ := hle (by simp [hk]) hcoef
      rw [hconst, zero_div] at hbound
      rw [hconst, le_antisymm hbound hnonneg, neg_zero, mul_zero, add_zero]
  · have hne : t.kind s.basic ≠ .external := fun hexternal =>
      absurd (hexternal ▸ hk) (by simp [Kind.restricted])
    refine Kind.admits_of_nonneg hk ?_
    rw [mul_neg, ← neg_mul]
    refine nonneg_of_le_ratio ((h s hs).1 hk) hnonneg fun hneg => ?_
    rw [neg_div_neg_eq]
    exact (hle hne fun hz => absurd hneg (by simp [hz])).2

/-- **Eliminating** a marker keeps a tableau feasible, unless it displaces another marker. Where no
row falls with the marker or rises, only external variables move. -/
theorem BasicFeasible.eliminated (h : t.BasicFeasible) (hl : t.Linked none) (hn : t.Normal)
    (hnot : ¬t.Displaces m) (hrow : (t.markerRow? m).bind t.row? = some r) :
    (t.eliminated r m).BasicFeasible := by
  obtain ⟨hmarked, hcases⟩ := hl.markerRow?_cases hrow
  obtain ⟨hr, -, hnegligible⟩ := hl.mem_marked.mp hmarked
  have hcoef : r.expr.coefficient m ≠ 0 := fun hz => hnegligible (negligible_iff.mpr hz)
  have hconst := hl.constant_redefined hr hcoef
  have hsub : ((t.detach r).substitute m (redefined r m).expr).BasicFeasible := by
    rcases hcases with ⟨b, hfirst, hb⟩ | ⟨hnil, b, hfirst, hb⟩ | hexternal
    · obtain ⟨⟨hk, -⟩, heq⟩ := growthBlocker?_eq_some_iff.mp hb
      have hratio : (redefined r m).expr.constant = b.ratio := hconst.trans (by rw [heq])
      refine h.substitute_detach hl hr (fun s hs _ _ => ?_) fun _ _ _ _ _ => hk
      rw [hratio]
      exact h.admits_growth hl hnot hfirst hr hb hs
    · obtain ⟨⟨hk, -⟩, heq⟩ := riser?_eq_some_iff.mp hb
      have hratio : (redefined r m).expr.constant = -b.ratio :=
        hconst.trans (by rw [heq, neg_div])
      refine h.substitute_detach hl hr (fun s hs _ _ => ?_) fun _ _ _ _ _ => hk
      rw [hratio]
      exact h.admits_fall hl hnil hfirst hr hb hs
    · have hall : ∀ s ∈ t.rows, m ∈ s.expr.vars → t.kind s.basic = .external := by
        intro s hs hm
        have hmarked := hl.mem_marked_of_ne_zero hs ((hn s hs).mem_vars_iff.mp hm)
        exact hexternal s hmarked
      refine h.substitute_detach hl hr (fun s hs _ hm => ?_) fun s hs _ hm hk => ?_
      · exact Kind.admits_of_external (hall s hs hm) _
      · exact absurd (hall s hs hm) hk
  exact hsub

/-- **Taking out** an equation keeps a tableau feasible, unless it displaces a marker. -/
theorem BasicFeasible.removeEquation (h : t.BasicFeasible) (hl : t.Linked none) (hn : t.Normal)
    (hnot : ¬t.Displaces m) : (t.removeEquation m).BasicFeasible := by
  refine removeEquation_cases (p := fun t' => t'.BasicFeasible) (fun q hdef => ?_) ?_ ?_
  · obtain ⟨hq, -⟩ := hl.definition?_eq_some_iff.mp hdef
    exact basicFeasible_iff.mpr ((basicFeasible_iff.mp h).dropRow Row.feasible_local hl hq)
  · exact fun q _ hrow => h.eliminated hl hn hnot hrow
  · exact fun _ _ => h

/-! ### What is displaced -/

/-- A marker that is displaced stands above zero once the equation is taken out. Its row does not
fall with the marker: a row that does would have been the one to give up. -/
theorem Displaces.exists_row (hd : t.Displaces m) (h : t.BasicFeasible) (hl : t.Linked none) :
    ∃ s ∈ t.rows, t.kind s.basic = .constant ∧ s.basic ≠ m ∧
      ∃ q ∈ (t.removeEquation m).rows, q.basic = s.basic ∧ 0 < q.expr.constant := by
  obtain ⟨s, hs, hsk, hpos⟩ := hd.lifted
  obtain ⟨f, hf, hfk, hneg⟩ := hd.blocked
  have hfm : m ∈ f.expr.vars := (hl.mem_marked.mp (hl.mem_marked_of_ne_zero hf (ne_of_lt hneg))).2.1
  have hbasic : ¬t.IsBasic m := ((hl.row f hf).term m hfm).2
  refine ⟨s, hs, hsk, fun hb => hbasic ⟨s, hs, hb⟩, ?_⟩
  refine removeEquation_cases (p := fun t' => ∃ q ∈ t'.rows, q.basic = s.basic ∧
    0 < q.expr.constant) ?_ ?_ ?_
  · intro r hdef
    obtain ⟨hr, hrm⟩ := hl.definition?_eq_some_iff.mp hdef
    exact absurd ⟨r, hr, hrm⟩ hbasic
  · intro r _ hrow
    obtain ⟨hmarked, hcases⟩ := hl.markerRow?_cases hrow
    obtain ⟨hr, -, hnegligible⟩ := hl.mem_marked.mp hmarked
    have hcoef : r.expr.coefficient m ≠ 0 := fun hz => hnegligible (negligible_iff.mpr hz)
    have hfmarked := hl.mem_marked_of_ne_zero hf (ne_of_lt hneg)
    have hgrows : t.kind r.basic ≠ .external ∧ r.expr.coefficient m < 0 := by
      rcases hcases with ⟨b, -, hb⟩ | ⟨hnil, -⟩ | hexternal
      · exact (growthBlocker?_eq_some_iff.mp hb).1
      · have hsome := growthBlocker?_eq_some_iff.mpr ⟨⟨hfk, hneg⟩, rfl⟩
        rw [List.filterMap_eq_nil_iff.mp hnil f hfmarked] at hsome
        exact absurd hsome (by simp)
      · exact absurd (hexternal f hfmarked) hfk
    have hmoves : 0 < (redefined r m).expr.constant := by
      rw [hl.constant_redefined hr hcoef]
      exact div_pos_of_neg_of_neg (neg_lt_zero.mpr (hd.distant r hr hgrows.1 hgrows.2)) hgrows.2
    have hsr : s ≠ r := by
      rintro rfl
      exact absurd hpos (not_lt.mpr (le_of_lt hgrows.2))
    refine ⟨s.substitute m (redefined r m).expr, ?_, rfl, ?_⟩
    · have hrows : (t.eliminated r m).rows =
          (t.detach r).rows.map fun q => q.substitute m (redefined r m).expr :=
        (hl.detach hr).rows_substitute m (redefined r m).expr
      rw [hrows]
      exact List.mem_map_of_mem ((hl.mem_rows_detach hr s).mpr ⟨hs, hsr⟩)
    · rw [Row.substitute, LinExpr.constant_substitute (hl.row s hs).nodup, (h s hs).2.1 hsk,
        zero_add]
      exact mul_pos hpos hmoves
  · intro _ hrow
    have hfmarked := hl.mem_marked_of_ne_zero hf (ne_of_lt hneg)
    rw [hl.marked_eq_nil hrow] at hfmarked
    exact absurd hfmarked List.not_mem_nil

/-- A row of a variable that is not discarded keeps its constant. -/
theorem Linked.exists_row_foldl_discard (hl : t.Linked none) (vs : List VarId) {q : Row Rat}
    (hq : q ∈ t.rows) (hv : q.basic ∉ vs) : ∃ s ∈ (vs.foldl Tableau.discard t).rows,
      s.basic = q.basic ∧ s.expr.constant = q.expr.constant := by
  induction vs generalizing t q with
  | nil => exact ⟨q, hq, rfl, rfl⟩
  | cons v vs ih =>
      rw [List.mem_cons, not_or] at hv
      have hleft := (hl.mem_rows_discard v _).mpr ⟨q, hq, hv.1, rfl⟩
      obtain ⟨s, hs, hb, hconst⟩ := ih (hl.discard v) hleft hv.2
      exact ⟨s, hs, hb, hconst⟩

/-- What a marker displaces depends on the rows and the kinds of their variables. -/
theorem Displaces.of_rows (hd : t.Displaces m) (hrows : t'.rows = t.rows)
    (hkind : ∀ s ∈ t.rows, t'.kind s.basic = t.kind s.basic) : t'.Displaces m := by
  obtain ⟨⟨s, hs, hsk, hpos⟩, ⟨f, hf, hfk, hneg⟩, hdistant⟩ := hd
  refine ⟨⟨s, hrows ▸ hs, (hkind s hs).trans hsk, hpos⟩,
    ⟨f, hrows ▸ hf, fun hk => hfk ((hkind f hf).symm.trans hk), hneg⟩, fun q hq hqk => ?_⟩
  rw [hrows] at hq
  rw [hkind q hq] at hqk
  exact hdistant q hq hqk

/-- A **removal** keeps a regular tableau feasible if and only if it displaces no marker. The
displaced marker is that of another constraint, so discarding what the removed one was made of keeps
its row. -/
theorem Regular.basicFeasible_withdraw_iff (h : t.Regular) (hfeasible : t.BasicFeasible)
    (hc : t.constraints.get? id = some c) :
    (t.withdraw id c.tag).BasicFeasible ↔ ¬t.Displaces c.tag.marker := by
  have hl := h.wellFormed.linked
  have hunlisted := hl.unlisted id c.tag
  have hrows := rows_unlisted t id c.tag
  have hkind : ∀ v, t.vars.isLive v → (t.unlisted id c.tag).kind v = t.kind v :=
    fun v hv => (keeps_unlisted t id c.tag []).kind_eq List.not_mem_nil hv
  have hf : (t.unlisted id c.tag).BasicFeasible :=
    hfeasible.of_rows hl (fun r hr => hrows ▸ hr) hkind
  obtain ⟨-, hkeeps⟩ := h.wellFormed.withdraw hc
  constructor
  · intro hleft hd
    obtain ⟨s, hs, hsk, hsm, q, hq, hqs, hpos⟩ := Displaces.exists_row
      (hd.of_rows hrows fun s hs => hkind s.basic (hl.row s hs).basic_isLive) hf hunlisted
    rw [hrows] at hs
    have hlive := (hl.row s hs).basic_isLive
    rw [hkind s.basic hlive] at hsk
    have hother : s.basic ∉ c.tag.vars := fun hmem => h.kind_ne_constant hc hmem hsm hsk
    obtain ⟨w, hw, hwq, hconst⟩ :=
      (hunlisted.removeEquation c.tag.marker).1.exists_row_foldl_discard c.tag.vars hq
        (hqs ▸ hother)
    have hwk : (t.withdraw id c.tag).kind w.basic = .constant := by
      rw [hwq, hqs, hkeeps.kind_eq hother hlive, hsk]
    rw [← hconst, (hleft w hw).2.1 hwk] at hpos
    exact lt_irrefl 0 hpos
  · intro hnot
    have hremoved := hf.removeEquation hunlisted (h.normal.of_rows hrows) fun hd =>
      hnot (hd.of_rows hrows.symm fun s hs => ?_)
    · exact hremoved.foldl_discard (hunlisted.removeEquation c.tag.marker).1 c.tag.vars
    · rw [hrows] at hs
      exact (hkind s.basic (hl.row s hs).basic_isLive).symm

end Tableau

/-! ### Reachable solvers -/

namespace Solver

variable {s : Solver Rat Rat}

/-- An empty solver has a regular tableau. -/
theorem regular_empty (settings : Settings) :
    (empty settings : Solver Rat Rat).tableau.Regular :=
  ⟨Tableau.WellFormed.of_nothing rfl rfl rfl (fun _ => rfl) fun _ => rfl,
    fun _ hr => absurd hr List.not_mem_nil,
    fun _ _ hc => absurd hc (by simp [empty, Tableau.empty])⟩

/-- A tableau is regular after a reset. -/
theorem regular_reset {t : Tableau Rat Rat} : t.reset.Regular :=
  ⟨Tableau.WellFormed.of_nothing rfl rfl rfl (VariablePool.get?_reset t.vars)
      (Pool.get?_reset t.rowSlots),
    fun _ hr => absurd hr List.not_mem_nil, fun _ _ hc => absurd hc (by simp [Tableau.reset])⟩

/-- Every reachable solver's tableau is regular. -/
theorem Reachable.regular (h : s.Reachable) : s.tableau.Regular :=
  h.of_closed (Tableau.closed_regular fun _ => True) regular_empty
    (fun _ kind stem ht => ht.addVariable kind stem) (fun _ ht => ht.minimise .goal)
    (fun _ ht => ht.settle) (fun _ _ => regular_reset) fun _ ht => ht.resetCounters

end Solver

end LexSimplex
