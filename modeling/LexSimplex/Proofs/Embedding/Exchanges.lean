import LexSimplex.Proofs.Descent
import LexSimplex.Proofs.Embedding.Rows

/-!
# Minimisations of embedded tableaux

While the larger tableau is minimised, exchanges in the copy and besides it interleave: each time
the least handle enters, wherever it lies. A renaming keeps the order of handles, so an exchange in
the copy is the next exchange of the embedded tableau, and an exchange besides the copy does not
touch it. Once nothing enters in the larger tableau nothing enters in the embedded one: both are at
their end, and the one is still a copy of the other.

## Main definitions

* `Tableau.Tracks`: an embedded tableau with its measure of a constraint being admitted.

## Main results

* `Tableau.Embeds.entering?_eq`, `Tableau.Embeds.leaving?_eq`: the choices in the copy.
* `Tableau.Tracks.descend`: minimisations that succeed end alike.
* `Tableau.Embeds.minimise_goal`: those of the goals.
* `Tableau.Embeds.minimise_outside`: the larger tableau measures a constraint of its own.
-/

namespace LexSimplex

/-! ### Choices under new handles -/

section Choices

variable {K : Type} [Coefficient K] {m : Renaming}

/-- A blocker under other handles. -/
def Blocker.rename (m : Renaming) (b : Blocker K) : Blocker K :=
  ⟨b.ratio, m.var b.basic, m.row b.row⟩

/-- Which blocker stops a variable sooner is decided alike for renamed ones, as these keep the order
of handles. -/
theorem Blocker.sooner_rename (b c : Blocker K) :
    (b.rename m).sooner (c.rename m) = b.sooner c := by
  have hlt : (b.rename m).basic < (c.rename m).basic ↔ b.basic < c.basic := m.var_lt_iff
  rw [sooner, sooner]
  simp only [hlt]
  rfl

/-- The first blocker is the copy of the first. -/
theorem Blocker.first?_map_rename (bs : List (Blocker K)) :
    first? (bs.map (rename m)) = (first? bs).map (rename m) := by
  suffices ∀ best : Option (Blocker K), (bs.map (rename m)).foldl better (best.map (rename m)) =
      (bs.foldl better best).map (rename m) from this none
  induction bs with
  | nil => exact fun best => rfl
  | cons b bs ih =>
    intro best
    rw [List.map_cons, List.foldl_cons, List.foldl_cons, ← ih]
    congr 1
    cases best with
    | none => rfl
    | some c =>
      rw [Option.map_some, better, better]
      simp only [sooner_rename]
      by_cases hb : b.sooner c
      · simp only [hb, if_true, Option.map_some]
      · simp only [hb, Bool.false_eq_true, if_false, Option.map_some]

end Choices

/-- The entry with the least handle is the one below which there is no other. -/
theorem lowest?_eq_some_of_forall {β : Type} {vs : List (VarId × β)} {x : VarId × β} (hx : x ∈ vs)
    (hleast : ∀ y ∈ vs, ¬y.1 < x.1) (hunique : ∀ y ∈ vs, y.1 = x.1 → y = x) :
    lowest? vs = some x := by
  cases hy : lowest? vs with
  | none => exact absurd hx (by rw [lowest?_eq_none_iff.mp hy]; exact List.not_mem_nil)
  | some y =>
    have hmem := mem_of_lowest?_eq_some hy
    have hxy : ¬x.1.index < y.1.index := not_lt_of_lowest?_eq_some hy hx
    have hyx : ¬y.1.index < x.1.index := hleast y hmem
    rw [hunique y hmem (VarId.eq_of_index_eq (by omega))]

namespace Tableau

variable {K Q : Type} [Coefficient K] {m : Renaming} {t t' u u' : Tableau K Q} {o : Objective}
  {v w : VarId} {d : Direction} {r : Row K} {out out' : Option RowId}

/-- The variables that lower an objective, each with its direction. -/
def candidates (t : Tableau K Q) (o : Objective) : List (VarId × Direction) :=
  (t.objective o).terms.filterMap fun term =>
    (t.improving term.1 term.2).map fun d => (term.1, d)

/-- The candidates are the variables of the objective that improve it, each in its direction. -/
theorem Linked.mem_candidates_iff (ht : t.Linked out) :
    (v, d) ∈ t.candidates o ↔
      ∃ a, (t.objective o).terms.get? v = some a ∧ t.improving v a = some d := by
  have hnodup := (ht.tidy_objective o).1.nodup
  constructor
  · intro hmem
    obtain ⟨⟨w, a⟩, hterm, himp⟩ := List.mem_filterMap.mp hmem
    obtain ⟨d', hd', heq⟩ := Option.map_eq_some_iff.mp himp
    obtain ⟨rfl, rfl⟩ := Prod.mk.inj heq
    exact ⟨a, (Assoc.get?_eq_some_iff hnodup).mpr hterm, hd'⟩
  · rintro ⟨a, hget, himp⟩
    refine List.mem_filterMap.mpr ⟨(v, a), (Assoc.get?_eq_some_iff hnodup).mp hget, ?_⟩
    rw [himp, Option.map_some]

/-- Only a live variable is a candidate. -/
theorem Linked.isLive_of_mem_candidates (ht : t.Linked out) (hmem : (v, d) ∈ t.candidates o) :
    t.vars.isLive v := by
  obtain ⟨a, hget, -⟩ := ht.mem_candidates_iff.mp hmem
  have hcontains : (t.objective o).terms.contains v := by rw [Assoc.contains, hget]; rfl
  exact ((ht.tidy_objective o).2 v (Assoc.contains_iff.mp hcontains)).1

namespace Embeds

/-- A live variable lowers an objective exactly where its copy does. -/
theorem mem_candidates_iff (h : t.Embeds m u) (ht : t.Linked out) (hu : u.Linked out')
    (ho : Goal.Agree m.var (fun v => t.vars.isLive v) (t.objective o) (u.objective o))
    (hv : t.vars.isLive v) : (m.var v, d) ∈ u.candidates o ↔ (v, d) ∈ t.candidates o := by
  have himp : ∀ a, u.improving (m.var v) a = t.improving v a := fun a => by
    rw [improving, improving, h.kind_eq hv]
  rw [ht.mem_candidates_iff, hu.mem_candidates_iff, ho v hv]
  simp only [himp]

/-- Where nothing enters in the larger tableau, nothing enters in the embedded one. -/
theorem entering?_eq_none (h : t.Embeds m u) (ht : t.Linked out) (hu : u.Linked out')
    (ho : Goal.Agree m.var (fun v => t.vars.isLive v) (t.objective o) (u.objective o))
    (hnone : u.entering? o = none) : t.entering? o = none := by
  refine lowest?_eq_none_iff.mpr (List.eq_nil_iff_forall_not_mem.mpr fun ⟨v, d⟩ hmem => ?_)
  have hcopy := (h.mem_candidates_iff ht hu ho (ht.isLive_of_mem_candidates hmem)).mpr hmem
  have hnil : u.candidates o = [] := lowest?_eq_none_iff.mp hnone
  rw [hnil] at hcopy
  exact absurd hcopy List.not_mem_nil

/-- Where the copy of a variable enters, that variable enters. -/
theorem entering?_eq (h : t.Embeds m u) (ht : t.Linked out) (hu : u.Linked out')
    (ho : Goal.Agree m.var (fun v => t.vars.isLive v) (t.objective o) (u.objective o))
    (hv : t.vars.isLive v) (henter : u.entering? o = some (m.var v, d)) :
    t.entering? o = some (v, d) := by
  have hmem := (h.mem_candidates_iff ht hu ho hv).mp (mem_of_lowest?_eq_some henter)
  refine lowest?_eq_some_of_forall hmem (fun y hy hlt => ?_) fun y hy heq => ?_
  · have hcopy := (h.mem_candidates_iff ht hu ho (ht.isLive_of_mem_candidates hy)).mpr hy
    exact not_lt_of_lowest?_eq_some henter hcopy (m.var_lt_iff.mpr hlt)
  · obtain ⟨w, e⟩ := y
    obtain rfl : w = v := heq
    obtain ⟨a, hget, himp⟩ := ht.mem_candidates_iff.mp hy
    obtain ⟨b, hget', himp'⟩ := ht.mem_candidates_iff.mp hmem
    obtain rfl := Option.some.inj (hget.symm.trans hget')
    rw [Option.some.inj (himp.symm.trans himp')]

/-- The row that stops the copy of a variable is the copy of the one that stops it. -/
theorem leaving?_eq (h : t.Embeds m u) (ht : t.Linked out) (hu : u.Linked out')
    (hv : t.vars.isLive v) (d : Direction) :
    u.leaving? (m.var v) d = (t.leaving? v d).map m.row := by
  have hblockers : u.blockers (m.var v) d = (t.blockers v d).map (Blocker.rename m) := by
    rw [blockers, blockers, h.referring_eq ht hu hv, List.filterMap_map, List.map_filterMap]
    refine List.filterMap_congr fun r hr => ?_
    have hrow := (ht.mem_referring.mp hr).1
    have hkind := h.kind_eq (ht.row r hrow).basic_isLive
    have hcoef : (r.rename m).expr.coefficient (m.var v) = r.expr.coefficient v :=
      LinExpr.coefficient_rename m.var_injective r.expr v
    rw [Function.comp_apply, blocker?, blocker?, hcoef, show (r.rename m).basic = m.var r.basic
      from rfl, hkind]
    cases t.kind r.basic with
    | external => rfl
    | constant => rfl
    | slack | error =>
      by_cases hc : r.expr.coefficient v * d.sign < 0
      · simp only [hc, if_true]
        rfl
      · simp only [hc, if_false]
        rfl
  rw [leaving?, leaving?, hblockers, Blocker.first?_map_rename, Option.map_map, Option.map_map]
  rfl

end Embeds

/-! ### Both are minimised -/

/-- A minimisation that succeeds is at its end, or makes an exchange and succeeds after it. -/
theorem of_descend_eq_ok {limit fuel : Nat} (hok : (descend o limit fuel t).1 = .ok ()) :
    (t.entering? o = none ∧ (descend o limit fuel t).2 = t) ∨
      ∃ t' n, fuel = n + 1 ∧ t.advance o = some t' ∧
        descend o limit fuel t = descend o limit n t' := by
  cases fuel with
  | zero =>
    rw [Tableau.descend] at hok ⊢
    cases henter : t.entering? o with
    | none => exact .inl ⟨rfl, rfl⟩
    | some x => exact absurd (henter ▸ hok) (by simp)
  | succ fuel =>
    rw [Tableau.descend] at hok ⊢
    rw [advance]
    cases henter : t.entering? o with
    | none => exact .inl ⟨rfl, rfl⟩
    | some x =>
      rw [henter] at hok
      dsimp only at hok ⊢
      rw [Option.bind_some]
      cases hleave : (t.count fun c => { c with iterations := c.iterations + 1 }).leaving? x.1 x.2
        with
      | none => exact absurd (hleave ▸ hok) (by simp)
      | some id => exact .inr ⟨_, fuel, rfl, rfl, rfl⟩

/-- A tableau is embedded as far as an objective counts. The goal may say more of what lies
outside; the measure of a constraint being admitted is that of the embedded tableau under new
handles. -/
structure Tracks (m : Renaming) (o : Objective) (t u : Tableau K Q) : Prop
    extends t.Embeds m u where
  measure : o = .phaseOne → u.phaseOne = t.phaseOne.map (Goal.rename m.var)

namespace Tracks

omit [Coefficient K] in

/-- Counting on both sides keeps the objectives alike. -/
theorem count (h : Tracks m o t u) (f g : Counters → Counters) :
    Tracks m o (t.count f) (u.count g) :=
  ⟨h.toEmbeds.count f g, fun ho => by rw [phaseOne_count, phaseOne_count, h.measure ho]⟩

omit [Coefficient K] in

/-- Counting on the large side keeps the objectives alike. -/
theorem count_right (h : Tracks m o t u) (g : Counters → Counters) : Tracks m o t (u.count g) :=
  ⟨h.toEmbeds.count_right g, fun ho => by rw [phaseOne_count, h.measure ho]⟩

/-- The objectives agree on the variables of the small tableau. -/
theorem agree (h : Tracks m o t u) :
    Goal.Agree m.var (fun v => t.vars.isLive v) (t.objective o) (u.objective o) := by
  cases o with
  | goal => exact h.goal
  | phaseOne =>
    rw [objective, objective, h.measure rfl]
    cases t.phaseOne with
    | none => exact fun _ _ => rfl
    | some g => exact Goal.agree_rename m.var_injective _ g

/-- The same exchange on both sides keeps the objectives alike. -/
theorem redefine (h : Tracks m o t u) (ht : t.Linked none) (hu : u.Linked none) (hr : r ∈ t.rows)
    (hv : v ∈ r.expr.vars) : Tracks m o (t.redefine r v) (u.redefine (r.rename m) (m.var v)) := by
  refine ⟨h.toEmbeds.redefine ht hu hr hv, fun ho => ?_⟩
  have hphase : ∀ (t : Tableau K Q) (r : Row K) (v : VarId), (t.redefine r v).phaseOne =
      t.phaseOne.map (·.substitute v (redefined r v).expr) := fun t r v => by
    rw [redefine_eq, phaseOne_attach]
    rfl
  rw [hphase, hphase, h.measure ho, ← Row.rename_redefined]
  cases t.phaseOne with
  | none => rfl
  | some g => exact congrArg some (Goal.rename_substitute m.var_injective g v _).symm

/-- Of the variables outside only the goal knows. -/
theorem redefine_outside (h : Tracks m o t u) (ht : t.Linked none) (hu : u.Linked none)
    (hr : r ∈ u.rows) (hw : w ∈ r.expr.vars) (hout : ¬Inside m t w)
    (hmem : w ∈ (u.objective o).vars) : Tracks m o t (u.redefine r w) := by
  refine ⟨h.toEmbeds.redefine_outside ht hu hr hw hout, fun ho => absurd ?_ hout⟩
  subst ho
  rw [objective, h.measure rfl] at hmem
  cases hphase : t.phaseOne with
  | none =>
    rw [hphase] at hmem
    exact absurd hmem List.not_mem_nil
  | some g =>
    rw [hphase] at hmem
    obtain ⟨v, hv, rfl⟩ := List.mem_map.mp ((Goal.vars_rename m.var g) ▸ hmem)
    have hlive := (ht.tidy_objective .phaseOne).2 v (by rw [objective, hphase]; exact hv)
    exact ⟨v, hlive.1, rfl⟩

/-- **Minimisations** that succeed end alike. The induction is on the exchanges of the larger
tableau, each of which the embedded one makes as well or has no part in. -/
theorem descend (h : Tracks m o t u) (ht : t.Linked none) (hu : u.Linked none)
    {limit limit' fuel fuel' : Nat} (hok : (Tableau.descend o limit fuel t).1 = .ok ())
    (hok' : (Tableau.descend o limit' fuel' u).1 = .ok ()) :
    Tracks m o (Tableau.descend o limit fuel t).2 (Tableau.descend o limit' fuel' u).2 := by
  induction fuel' using Nat.strong_induction_on generalizing t u fuel with
  | _ fuel' ih =>
    rcases of_descend_eq_ok hok' with ⟨hnone, hend'⟩ | ⟨u', n, hn, hadvance', hstep'⟩
    · have hnone₀ := h.entering?_eq_none ht hu h.agree hnone
      rcases of_descend_eq_ok hok with ⟨-, hend⟩ | ⟨t', n, -, hadvance, -⟩
      · rwa [hend, hend']
      · rw [advance, hnone₀, Option.bind_none] at hadvance
        exact absurd hadvance (by simp)
    · obtain ⟨w, d, r, f, g, henter, hleave, hrow, rfl⟩ := hu.of_advance hadvance'
      obtain ⟨hr, hw⟩ := hu.mem_of_leaving? hleave hrow
      rw [← rows_count u f] at hr
      have hu' := ((hu.count f).redefine hr hw).count g
      rw [hstep'] at hok' ⊢
      by_cases hin : Inside m t w
      · obtain ⟨v, hv, rfl⟩ := hin
        have henter₀ := h.entering?_eq ht hu h.agree hv henter
        rw [h.leaving?_eq ht hu hv] at hleave
        obtain ⟨id, hleave₀, hid⟩ := Option.map_eq_some_iff.mp hleave
        rcases of_descend_eq_ok hok with ⟨hnone, -⟩ | ⟨t', k, -, hadvance, hstep⟩
        · exact absurd (henter₀.symm.trans hnone) (by simp)
        · obtain ⟨v', d', r₀, f₀, g₀, henter', hleave', hrow₀, rfl⟩ := ht.of_advance hadvance
          obtain ⟨rfl, rfl⟩ := Prod.mk.inj (Option.some.inj (henter₀.symm.trans henter'))
          obtain rfl := Option.some.inj (hleave₀.symm.trans hleave')
          obtain ⟨hr₀, hv₀⟩ := ht.mem_of_leaving? hleave' hrow₀
          rw [← rows_count t f₀] at hr₀
          have hcount := h.count f₀ f
          obtain rfl := hcount.eq_rename_of_id_eq (hu.count f) hr hr₀ hid
          rw [hstep] at hok ⊢
          exact ih n (by omega) ((hcount.redefine (ht.count f₀) (hu.count f) hr₀ hv₀).count g₀ g)
            (((ht.count f₀).redefine hr₀ hv₀).count g₀) hu' hok hok'
      · obtain ⟨a, hmem, -⟩ := exists_of_entering?_eq_some henter
        have hterm : w ∈ ((u.count f).objective o).vars := by
          rw [objective_count]
          exact List.mem_map_of_mem hmem
        exact ih n (by omega) (((h.count_right f).redefine_outside ht (hu.count f) hr hw hin
          hterm).count_right g) ht hu' hok hok'

/-- Minimisations that both succeed leave the objectives alike. -/
theorem minimise (h : Tracks m o t u) (ht : t.Linked none) (hu : u.Linked none)
    (hok : (t.minimise o).1 = .ok ()) (hok' : (u.minimise o).1 = .ok ()) :
    Tracks m o (t.minimise o).2 (u.minimise o).2 :=
  h.descend ht hu hok hok'

end Tracks

/-- Minimisations of the goals that succeed leave the one embedded in the other. -/
theorem Embeds.minimise_goal (h : t.Embeds m u) (ht : t.Linked none) (hu : u.Linked none)
    (hok : (t.minimise .goal).1 = .ok ()) (hok' : (u.minimise .goal).1 = .ok ()) :
    (t.minimise .goal).2.Embeds m (u.minimise .goal).2 := by
  have htracks : Tracks m .goal t u := ⟨h, nofun⟩
  exact (htracks.minimise ht hu hok hok').toEmbeds

/-! ### The larger one is minimised alone -/

/-- While the larger tableau measures a constraint on variables outside, no exchange touches the
copy, however the measurement ends. -/
theorem Embeds.minimise_outside (h : t.Embeds m u) (ht : t.Linked out) (hu : u.Linked none)
    (hout : ∀ w ∈ (u.objective .phaseOne).vars, ¬Inside m t w) :
    t.Embeds m (u.minimise .phaseOne).2 := by
  suffices (u.minimise .phaseOne).2.Linked none ∧ t.Embeds m (u.minimise .phaseOne).2 ∧
      ∀ w ∈ ((u.minimise .phaseOne).2.objective .phaseOne).vars, ¬Inside m t w from this.2.1
  refine minimise_induction (p := fun u => u.Linked none ∧ t.Embeds m u ∧
    ∀ w ∈ (u.objective .phaseOne).vars, ¬Inside m t w) ?_ ?_ ⟨hu, h, hout⟩
  · rintro u f ⟨hu, h, hout⟩
    exact ⟨hu.count f, h.count_right f, by rwa [objective_count]⟩
  · rintro u v d r ⟨hu, h, hout⟩ henter hleave hrow
    obtain ⟨hr, hv⟩ := hu.mem_of_leaving? hleave hrow
    obtain ⟨a, hterm, -⟩ := exists_of_entering?_eq_some henter
    have hvout := hout v (List.mem_map_of_mem hterm)
    refine ⟨hu.redefine hr hv, h.redefine_outside ht hu hr hv hvout, fun w hw => ?_⟩
    rw [objective_redefine] at hw
    rcases (hu.tidy_objective .phaseOne).1.mem_of_mem_substitute hw with hw | ⟨-, hw⟩
    · exact h.outside_of_row ht hu hr hvout (.inr hv)
        (LinExpr.mem_of_mem_exchange (hu.row r hr).nodup hw).2
    · exact hout w hw

end Tableau

end LexSimplex
