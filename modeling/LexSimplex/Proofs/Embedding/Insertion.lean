import LexSimplex.Proofs.Embedding.Drafts
import LexSimplex.Proofs.Embedding.Exchanges

/-!
# Insertions into embedded tableaux

A request of the embedded tableau that is inserted in both goes the same way in both, and is
accepted in both or refused in both: what decides on the way are the terms of its draft, the kinds
of their variables and the rows of the copy. A request of variables outside is inserted into the
larger tableau without a trace in the copy, whether it is accepted or not.

## Main results

* `Tableau.Embeds.insert`: an insertion in both.
* `Tableau.Embeds.insert_outside`: an insertion in the larger one.
-/

namespace LexSimplex

/-- What is found among images is the image of what is found. -/
theorem find?_map_of_forall {α β : Type} {f : α → β} {p : β → Bool} {q : α → Bool} {l : List α}
    (h : ∀ x ∈ l, p (f x) = q x) : (l.map f).find? p = (l.find? q).map f := by
  induction l with
  | nil => rfl
  | cons x xs ih =>
    rw [List.map_cons, List.find?_cons, List.find?_cons, h x List.mem_cons_self,
      ih fun y hy => h y (List.mem_cons_of_mem x hy)]
    cases q x <;> rfl

/-- The constraints that a variable is folded into do not matter. -/
theorem Variable.Matches.iterate_retainFold {Q : Type} {f : RowId → RowId} {x y : Variable Q}
    (h : x.Matches f y) (i j : Nat) :
    (Variable.retainFold^[i] x).Matches f (Variable.retainFold^[j] y) := by
  induction i generalizing x with
  | zero =>
    induction j generalizing y with
    | zero => exact h
    | succ j ih => exact ih (y := y.retainFold) ⟨h.role, h.definition, h.refs⟩
  | succ i ih => exact ih (x := x.retainFold) ⟨h.role, h.definition, h.refs⟩

namespace Tableau

variable {K Q : Type} {m : Renaming} {t t' u u' : Tableau K Q}
  {out out' : Option RowId} {v w a : VarId} {n k : Nat} {d d' : Draft K}

/-- Entering a constraint leaves the goal. -/
theorem goal_register (t : Tableau K Q) (c : Constraint K) : (t.register c).2.goal = t.goal := by
  obtain ⟨p, hp⟩ := foldl_modifyVar Variable.retainFold c.tag.folded t
  rw [register]
  dsimp only
  rw [goal_count, hp]

namespace Embeds

/-- Entering a constraint in the large tableau leaves the small one in it. -/
theorem register_right (h : t.Embeds m u) (c : Constraint K) :
    t.Embeds m (u.register c).2 := by
  refine h.of_vars (f := fun _ x => x) (fun v => by rw [Option.map_id'])
    (fun v => get?_register u c (m.var v)) (fun v x y hxy => hxy.iterate_retainFold 0 _)
    (fun r hr => ?_) ?_
  · rw [rows_register]
    exact h.row r hr
  · rw [goal_register]
    exact h.goal

/-- Entering a constraint in both tableaux leaves one in the other. -/
theorem register (h : t.Embeds m u) (c c' : Constraint K) :
    (t.register c).2.Embeds m (u.register c').2 := by
  refine h.of_vars (get?_register t c) (fun v => get?_register u c' (m.var v))
    (fun v x y hxy => hxy.iterate_retainFold _ _) (fun r hr => ?_) ?_
  · rw [rows_register] at hr ⊢
    exact h.row r hr
  · rw [goal_register, goal_register]
    exact h.goal

variable [Coefficient K]

/-! ### Both place a draft -/

/-- A draft can define the copy of what it can define. -/
theorem subject?_eq (h : t.Embeds m u) (hp : t.Placeable d) (hd : d.Matches m d') :
    u.subject? d' = (t.subject? d).map m.var := by
  have hexternal := find?_map_of_forall (f := m.var) (p := fun v => decide (u.kind v = .external))
    (q := fun v => decide (t.kind v = .external)) (l := d.expr.vars) fun v hv => by
      rw [h.kind_eq (hp.term v hv).1]
  have hown := find?_map_of_forall (f := m.var)
    (p := fun v => (u.kind v).restricted && decide ((d.expr.rename m.var).coefficient v < 0))
    (q := fun v => (t.kind v).restricted && decide (d.expr.coefficient v < 0))
    (l := d.constraint.tag.vars) fun v hv => by
      rw [h.kind_eq (hp.own v hv).1, LinExpr.coefficient_rename m.var_injective]
  rw [subject?, subject?, hd.expr, hd.own, LinExpr.vars_rename, hexternal, hown, Option.map_or]

omit [Coefficient K] in

/-- The variable that succeeds the artificial one is the same on both sides. -/
theorem successor?_eq (h : t.Embeds m u) {e : LinExpr K} (he : ∀ v ∈ e.vars, t.vars.isLive v)
    (marker : VarId) :
    u.successor? (e.rename m.var) (m.var marker) = (t.successor? e marker).map m.var := by
  have hrestricted := find?_map_of_forall (f := m.var) (p := fun v => (u.kind v).restricted)
    (q := fun v => (t.kind v).restricted) (l := e.vars) fun v hv => by rw [h.kind_eq (he v hv)]
  have hexternal := find?_map_of_forall (f := m.var) (p := fun v => decide (u.kind v = .external))
    (q := fun v => decide (t.kind v = .external)) (l := e.vars) fun v hv => by
      rw [h.kind_eq (he v hv)]
  rw [successor?, successor?, LinExpr.vars_rename, hrestricted, hexternal,
    LinExpr.contains_rename m.var_injective, Option.map_or, Option.map_or]
  by_cases hm : e.contains marker
  · rw [if_pos hm, if_pos hm, Option.map_some]
  · rw [if_neg hm, if_neg hm, Option.map_none]

/-- Retiring an artificial variable of both tableaux leaves one in the other. -/
theorem retire (h : t.Embeds m u) (ht : t.Linked none) (hu : u.Linked none)
    (ha : t.vars.isLive a) (marker : VarId) (b : Bool) :
    (t.retire a marker b).Embeds m (u.retire (m.var a) (m.var marker) b) := by
  rw [Tableau.retire, Tableau.retire, h.definition?_eq ht hu ha]
  cases hdef : t.definition? a with
  | none => exact h
  | some r =>
    have hr := (ht.definition?_eq_some_iff.mp hdef).1
    have hsuccessor : (if b then u.successor? (r.rename m).expr (m.var marker) else none) =
        (if b then t.successor? r.expr marker else none).map m.var := by
      cases b with
      | true => exact h.successor?_eq (fun v hv => ((ht.row r hr).term v hv).1) marker
      | false => rfl
    rw [Option.map_some]
    dsimp only
    rw [hsuccessor]
    cases hnext : if b then t.successor? r.expr marker else none with
    | none => exact h.dropRow ht hu hr
    | some v => exact h.redefine ht hu hr (reached_and_mem_of_successor? hnext).2

/-- A draft that is settled in both tableaux leaves one in the other. -/
theorem settled (h : t.Embeds m u) (ht : t.Linked none) (hu : u.Linked none)
    (ha : t.vars.isLive a) (hd : d.Matches m d') (b : Bool) :
    (t.settled d a b).Embeds m (u.settled d' (m.var a) b) := by
  have hclear : Embeds m { t with phaseOne := none } { u with phaseOne := none } :=
    h.of_eq rfl rfl rfl rfl rfl rfl
  have ht' := ht.withoutPhaseOne
  have hu' := hu.withoutPhaseOne
  obtain ⟨hretired, hkept⟩ := ht'.retire a d.constraint.tag.marker b
  have hlive := (hkept.isLive_iff a).mpr ha
  rw [Tableau.settled, Tableau.settled, hd.marker_eq]
  exact (hclear.retire ht' hu' ha d.constraint.tag.marker b).discard hretired
    (hu'.retire (m.var a) _ b).1 hlive

/-- A draft that speaks of markers alone, placed in both. -/
theorem placeRedundant (h : t.Embeds m u) (hp : t.Placeable d) (hd : d.Matches m d') :
    (u.placeRedundant d').1 = (t.placeRedundant d).1 ∧
      (t.placeRedundant d).2.Embeds m (u.placeRedundant d').2 := by
  have hrelease : (t.releaseRow d.row).Embeds m (u.releaseRow d'.row) :=
    h.of_eq rfl rfl rfl rfl rfl rfl
  have hcontains : d'.expr.contains d'.constraint.tag.marker =
      d.expr.contains d.constraint.tag.marker := by
    rw [hd.expr, hd.marker_eq, LinExpr.contains_rename m.var_injective]
  have hconstant : d'.expr.constant = d.expr.constant := by rw [hd.expr, LinExpr.constant_rename]
  rw [Tableau.placeRedundant, Tableau.placeRedundant]
  simp only [hcontains, hconstant]
  by_cases hz : Coefficient.negligible d.expr.constant
  · by_cases hmarker : d.expr.contains d.constraint.tag.marker
    · have hattach := h.attach (r := ⟨d.row, d.constraint.tag.marker,
        d.expr.solveFor d.constraint.tag.marker⟩) (LinExpr.nodup_vars_solveFor hp.nodup _)
      have hrow : Row.rename m ⟨d.row, d.constraint.tag.marker,
          d.expr.solveFor d.constraint.tag.marker⟩ = ⟨d'.row, d'.constraint.tag.marker,
            d'.expr.solveFor d'.constraint.tag.marker⟩ := by
        rw [Row.rename, LinExpr.rename_solveFor m.var_injective, hd.row, hd.marker_eq, hd.expr]
      rw [hrow] at hattach
      simp only [hz, hmarker, if_true]
      exact ⟨trivial, hattach⟩
    · simp only [hz, hmarker, if_true, Bool.false_eq_true, if_false]
      exact ⟨trivial, hrelease⟩
  · simp only [hz, Bool.false_eq_true, if_false]
    exact ⟨trivial, hrelease⟩

/-- Discarding the same variables from both tableaux leaves one in the other. -/
theorem foldl_discard (h : t.Embeds m u) (ht : t.Linked none) (hu : u.Linked none) {vs : List VarId}
    (hvs : ∀ v ∈ vs, t.vars.isLive v) (hnodup : vs.Nodup) :
    (vs.foldl Tableau.discard t).Embeds m ((vs.map m.var).foldl Tableau.discard u) := by
  induction vs generalizing t u with
  | nil => exact h
  | cons v vs ih =>
    obtain ⟨hv, hrest⟩ := List.nodup_cons.mp hnodup
    refine ih (h.discard ht hu (hvs v List.mem_cons_self)) (ht.discard v) (hu.discard (m.var v))
      (fun w hw => ?_) hrest
    have hne : w ≠ v := ne_of_mem_of_not_mem hw hv
    have hget : (t.discard v).vars.get? w = (t.purge v).vars.get? w :=
      (VariablePool.get?_release _ v w).trans (if_neg hne)
    rw [VariablePool.isLive_iff, hget, ← VariablePool.isLive_iff, (ht.sameVars_purge v).isLive_iff]
    exact hvs w (List.mem_cons_of_mem v hw)

section Placing

variable [Scalar Q]

/-- A draft measured in both. -/
theorem measured (h : t.Embeds m u) (hn : t.Filled n) (hk : u.Filled k) (hm : m.Aligned n k)
    (hp : t.Placeable d) (hp' : u.Placeable d') (hd : d.Matches m d') :
    u.artificial = m.var t.artificial ∧
      Tracks m .phaseOne (t.measured d) (u.measured d') := by
  have ha : u.artificial = m.var t.artificial := by
    rw [artificial, artificial, (hn.addVariable .slack none).1, (hk.addVariable .slack none).1,
      hm.var_eq]
  have hadd := h.addVariable hp.linked hp'.linked .slack none none ha
  have hphase : Embeds m
      { (t.addVariable .slack none).2 with phaseOne := some (Goal.ofExpr d.expr .fixed) }
      { (u.addVariable .slack none).2 with phaseOne := some (Goal.ofExpr d'.expr .fixed) } :=
    hadd.of_eq rfl rfl rfl rfl rfl rfl
  have hattach := hphase.attach (r := ⟨d.row, t.artificial, d.expr⟩) hp.nodup
  have hrow : Row.rename m ⟨d.row, t.artificial, d.expr⟩ = ⟨d'.row, u.artificial, d'.expr⟩ := by
    rw [hd.row, hd.expr, ha]
    rfl
  rw [hrow] at hattach
  refine ⟨ha, hattach, fun _ => ?_⟩
  rw [Tableau.measured, Tableau.measured, phaseOne_attach, phaseOne_attach, hd.expr,
    ← Goal.rename_ofExpr m.var_injective]
  rfl

/-- A draft tried in both. -/
theorem placeByArtificial (h : t.Embeds m u) (hn : t.Filled n) (hk : u.Filled k)
    (hm : m.Aligned n k) (hp : t.Placeable d) (hp' : u.Placeable d') (hd : d.Matches m d')
    {b b' : Bool} (hok : (t.placeByArtificial d).1 = .ok b)
    (hok' : (u.placeByArtificial d').1 = .ok b') :
    b' = b ∧ (t.placeByArtificial d).2.Embeds m (u.placeByArtificial d').2 := by
  have hplace : ∀ (t : Tableau K Q) (d : Draft K), ∃ f, t.placeByArtificial d =
      (((t.count f).trial d).1.map fun _ => reached ((t.count f).trial d),
        ((t.count f).trial d).2.settled d (t.count f).artificial
          (reached ((t.count f).trial d))) := fun t d => ⟨_, rfl⟩
  obtain ⟨f, hplaced⟩ := hplace t d
  obtain ⟨g, hplaced'⟩ := hplace u d'
  rw [hplaced] at hok ⊢
  rw [hplaced'] at hok' ⊢
  have hcount := h.count f g
  have hfill : (t.count f).Filled n := hn.of_sameVars (SameVars.count f)
  have hfill' : (u.count g).Filled k := hk.of_sameVars (SameVars.count g)
  have hpf := hp.count f
  have hpg := hp'.count g
  generalize t.count f = t at hok hcount hfill hpf ⊢
  generalize u.count g = u at hok' hcount hfill' hpg ⊢
  have hmap : ∀ {outcome : Except Fault Unit} {x y : Bool}, outcome.map (fun _ => x) = .ok y →
      outcome = .ok () ∧ y = x := by
    intro outcome x y he
    cases outcome with
    | error fault => exact absurd he (by simp [Except.map])
    | ok z => exact ⟨rfl, (Except.ok.inj he).symm⟩
  obtain ⟨htrial, rfl⟩ := hmap hok
  obtain ⟨htrial', rfl⟩ := hmap hok'
  obtain ⟨ha, htracks⟩ := hcount.measured hfill hfill' hm hpf hpg hd
  have hmeasured := hpf.measured.1
  have hmeasured' := hpg.measured.1
  have hleast : Tracks m .phaseOne (t.trial d).2 (u.trial d').2 :=
    htracks.minimise hmeasured hmeasured' htrial htrial'
  have hreached : reached (u.trial d') = reached (t.trial d) := by
    have hconstant : ((u.trial d').2.objective .phaseOne).constant =
        ((t.trial d).2.objective .phaseOne).constant := by
      rw [objective, objective, hleast.measure rfl]
      cases (t.trial d).2.phaseOne <;> rfl
    rw [reached, reached, htrial, htrial', isMet, isMet, hconstant]
  have hlive : (t.trial d).2.vars.isLive t.artificial :=
    (hpf.trial.2.1.isLive_iff _).mpr ((t.isLive_addVariable .slack none _).mpr (.inl rfl))
  refine ⟨hreached, ?_⟩
  rw [ha, hreached]
  exact hleast.toEmbeds.settled hpf.trial.1 hpg.trial.1 hlive hd _

/-- A **draft** placed in both. -/
theorem place (h : t.Embeds m u) (hn : t.Filled n) (hk : u.Filled k) (hm : m.Aligned n k)
    (hp : t.Placeable d) (hp' : u.Placeable d') (hd : d.Matches m d') {b b' : Bool}
    (hok : (t.place d).1 = .ok b) (hok' : (u.place d').1 = .ok b') :
    b' = b ∧ (t.place d).2.Embeds m (u.place d').2 := by
  have hall : (d'.expr.vars.all fun v => u.kind v = .constant) =
      d.expr.vars.all fun v => t.kind v = .constant := by
    rw [hd.expr, LinExpr.vars_rename, List.all_map, Bool.eq_iff_iff, List.all_eq_true,
      List.all_eq_true]
    refine forall₂_congr fun v hv => ?_
    rw [Function.comp_apply, h.kind_eq (hp.term v hv).1]
  rw [Tableau.place] at hok hok' ⊢
  rw [Tableau.place]
  rw [h.subject?_eq hp hd] at hok' ⊢
  cases hsubject : t.subject? d with
  | some v =>
    rw [hsubject] at hok hok'
    obtain ⟨hv, -⟩ := hp.subject hsubject
    have hnodup := LinExpr.nodup_vars_solveFor hp.nodup v
    have hsubst := (h.substitute hp.linked hp'.linked hv hnodup).attach
      (r := ⟨d.row, v, d.expr.solveFor v⟩) hnodup
    have hrow : Row.rename m ⟨d.row, v, d.expr.solveFor v⟩ =
        ⟨d'.row, m.var v, d'.expr.solveFor (m.var v)⟩ := by
      rw [Row.rename, LinExpr.rename_solveFor m.var_injective, hd.row, hd.expr]
    rw [hrow, LinExpr.rename_solveFor m.var_injective, ← hd.expr] at hsubst
    obtain rfl := Except.ok.inj hok
    obtain rfl := Except.ok.inj hok'
    rw [Option.map_some]
    dsimp only
    exact ⟨rfl, hsubst.count _ _⟩
  | none =>
    rw [hsubject] at hok hok'
    simp only [Option.map_none, hall] at hok hok' ⊢
    by_cases hconstant : d.expr.vars.all fun v => t.kind v = .constant
    · simp only [hconstant, if_true] at hok hok' ⊢
      obtain ⟨hfirst, hplaced⟩ := h.placeRedundant hp hd
      obtain rfl := Except.ok.inj hok
      obtain rfl := Except.ok.inj hok'
      exact ⟨hfirst, hplaced⟩
    · simp only [hconstant, Bool.false_eq_true, if_false] at hok hok' ⊢
      exact h.placeByArtificial hn hk hm hp hp' hd hok hok'

end Placing

end Embeds

/-! ### Both insert a request -/

section Insert

variable [Coefficient K] [Scalar Q] [Precision K Q] {request : Request K} {relation : Relation}

/-- An insertion that is settled enters the constraint as it was placed, or discards what was made
for it. -/
theorem insert_of_settled (hlive : ∀ v ∈ request.expr.vars, t.vars.isLive v)
    (hsettled : Settled (t.insert request relation).1) :
    ((t.placed request relation).1 = .ok true ∧ ∃ id c,
        t.insert request relation = (.ok id, ((t.placed request relation).2.register c).2)) ∨
      ((t.placed request relation).1 = .ok false ∧ ∃ text f,
        t.insert request relation = (.error (.infeasible text),
          ((t.draft request relation).1.constraint.tag.vars.foldl discard
            (t.placed request relation).2).count f)) := by
  revert hsettled
  refine insert_cases (p := fun result => Settled result.1 →
    ((t.placed request relation).1 = .ok true ∧ ∃ id c,
        result = (.ok id, ((t.placed request relation).2.register c).2)) ∨
      ((t.placed request relation).1 = .ok false ∧ ∃ text f,
        result = (.error (.infeasible text),
          ((t.draft request relation).1.constraint.tag.vars.foldl discard
            (t.placed request relation).2).count f))) ?_ ?_ ?_ ?_
  · exact fun v hv hdead => absurd (hlive v hv) hdead
  · intro fault _ hfault hsettled
    obtain ⟨-, htrial⟩ := trial_of_place_error hfault
    exact absurd (isInternal_of_minimise htrial) (hsettled fault rfl)
  · exact fun _ hok _ => .inl ⟨hok, _, _, rfl⟩
  · exact fun text f _ hok _ => .inr ⟨hok, text, f, rfl⟩

namespace Embeds

/-- An **insertion** in both: it is accepted in both or refused in both. -/
theorem insert (h : t.Embeds m u) (ht : t.Linked none) (hu : u.Linked none) (hn : t.Filled n)
    (hk : u.Filled k) (hm : m.Aligned n k) (hlive : ∀ v ∈ request.expr.vars, t.vars.isLive v)
    (hsettled : Settled (t.insert request relation).1)
    (hsettled' : Settled (u.insert (request.rename m.var) relation).1) :
    (u.insert (request.rename m.var) relation).1.toBool = (t.insert request relation).1.toBool ∧
      ∃ m', m'.var = m.var ∧
        (t.insert request relation).2.Embeds m' (u.insert (request.rename m.var) relation).2 := by
  have hlive' : ∀ v ∈ (request.rename m.var).expr.vars, u.vars.isLive v := by
    intro v hv
    rw [Request.rename, LinExpr.vars_rename] at hv
    obtain ⟨w, hw, rfl⟩ := List.mem_map.mp hv
    exact h.isLive_of_inside ⟨w, hlive w hw, rfl⟩
  obtain ⟨hmatch, hdraft⟩ := h.draft ht hu hn hk hm hlive relation
  have hp := (ht.draft request relation).placeable ht
  have hp' := (hu.draft (request.rename m.var) relation).placeable hu
  have hplaced : ∀ {b b' : Bool}, (t.placed request relation).1 = .ok b →
      (u.placed (request.rename m.var) relation).1 = .ok b' → b' = b ∧
        (t.placed request relation).2.Embeds (m.pointRow t.acquireRow.1 u.acquireRow.1)
          (u.placed (request.rename m.var) relation).2 := fun hok hok' =>
    hdraft.place (hn.draft request relation) (hk.draft (request.rename m.var) relation) (hm.add _)
      hp hp' hmatch hok hok'
  rcases insert_of_settled hlive hsettled with ⟨hok, id, c, hresult⟩ | ⟨hok, text, f, hresult⟩
  · rcases insert_of_settled hlive' hsettled' with ⟨hok', id', c', hresult'⟩ | ⟨hok', -⟩
    · rw [hresult, hresult']
      exact ⟨rfl, m.pointRow t.acquireRow.1 u.acquireRow.1, Renaming.var_pointRow ..,
        (hplaced hok hok').2.register c c'⟩
    · exact absurd (hplaced hok hok').1 (by simp)
  · rcases insert_of_settled hlive' hsettled' with ⟨hok', -⟩ | ⟨hok', text', f', hresult'⟩
    · exact absurd (hplaced hok hok').1 (by simp)
    · obtain ⟨hlinked, hsame⟩ := Linked.place hp
      rw [hresult, hresult', hmatch.own]
      refine ⟨rfl, m.pointRow t.acquireRow.1 u.acquireRow.1, Renaming.var_pointRow .., ?_⟩
      refine ((hplaced hok hok').2.foldl_discard hlinked (Linked.place hp').1 (fun v hv => ?_)
        (ht.draft request relation).joined.nodup).count f f'
      exact (hsame.isLive_iff v).mpr (hp.own v hv).1

/-! ### The larger one inserts a request -/

omit [Coefficient K] [Precision K Q] in
/-- A new variable is outside. -/
theorem addVariable_outside (h : t.Embeds m u) (kind : Kind) (stem : Option String) :
    ¬Inside m t (u.addVariable kind stem).1 ∧ t.Embeds m (u.addVariable kind stem).2 := by
  have hout : ¬Inside m t (u.addVariable kind stem).1 := fun hin => by
    obtain ⟨x, hx⟩ := VariablePool.isLive_iff.mp (h.isLive_of_inside hin)
    rw [u.get?_addVariable_fst kind stem] at hx
    exact absurd hx (by simp)
  obtain ⟨name, hget⟩ := u.get?_addVariable kind stem
  refine ⟨hout, h.frame (fun v hv => ?_) (fun r hr => ?_) fun v _ => ?_⟩
  · rw [hget, if_neg fun he => hout ⟨v, hv, he⟩]
  · rw [rows_addVariable]
    exact h.row r hr
  · rw [goal_addVariable]

omit [Scalar Q] [Precision K Q] in

/-- Retiring an artificial variable that is not one of the small tableau's leaves that in the large
one. -/
theorem retire_outside (h : t.Embeds m u) (ht : t.Linked out) (hu : u.Linked none)
    (ha : ¬Inside m t a) (marker : VarId) (b : Bool) : t.Embeds m (u.retire a marker b) := by
  rw [Tableau.retire]
  cases hdef : u.definition? a with
  | none => exact h
  | some r =>
    obtain ⟨hr, hbasic⟩ := hu.definition?_eq_some_iff.mp hdef
    have hout : ∀ w, w = r.basic ∨ w ∈ r.expr.vars → ¬Inside m t w := fun w hw =>
      h.outside_of_row ht hu hr ha (.inl hbasic.symm) hw
    dsimp only
    cases hnext : if b then u.successor? r.expr marker else none with
    | none => exact h.dropRow_outside ht hu hr hout
    | some v =>
      have hv := (reached_and_mem_of_successor? hnext).2
      exact h.redefine_outside ht hu hr hv (hout v (.inr hv))

omit [Precision K Q] in
/-- A draft of variables outside placed in the larger tableau. -/
theorem place_outside (h : t.Embeds m u) (ht : t.Linked out) (hp : u.Placeable d)
    (hexpr : ∀ w ∈ d.expr.vars, ¬Inside m t w)
    (hown : ∀ w ∈ d.constraint.tag.vars, ¬Inside m t w) : t.Embeds m (u.place d).2 := by
  have hsolve : ∀ v, ∀ w ∈ (d.expr.solveFor v).vars, ¬Inside m t w := fun v w hw =>
    hexpr w ((LinExpr.mem_vars_solveFor hp.nodup v w).mp hw).2
  have hmarker := hown d.constraint.tag.marker List.mem_cons_self
  have hrow : ∀ v, ¬Inside m t v → ∀ w, w = v ∨ w ∈ (d.expr.solveFor v).vars → ¬Inside m t w := by
    rintro v hv w (rfl | hw)
    · exact hv
    · exact hsolve v w hw
  refine place_cases (p := fun result => t.Embeds m result.2) ?_ ?_ ?_ ?_ ?_ ?_
  · exact fun o u f h => Embeds.count_right h f
  · intro v hv
    have hout : ¬Inside m t v := by
      rcases subject?_cases hv with ⟨hmem, -⟩ | ⟨-, hmem, -⟩
      · exact hexpr v hmem
      · exact hown v hmem
    have hnodup := LinExpr.nodup_vars_solveFor hp.nodup v
    exact (h.substitute_outside ht hp.linked hout hnodup (hsolve v)).attach_outside hnodup
      (hrow v hout)
  · intro _ _ _ _
    exact h.attach_outside (LinExpr.nodup_vars_solveFor hp.nodup _) (hrow _ hmarker)
  · exact fun _ => h.of_eq rfl rfl rfl rfl rfl rfl
  · exact fun _ _ _ => h.of_eq rfl rfl rfl rfl rfl rfl
  · intro f _
    have hpf := hp.count f
    have hf := h.count_right f
    generalize u.count f = u at hpf hf ⊢
    obtain ⟨ha, hadd⟩ := hf.addVariable_outside .slack none
    have hphase : t.Embeds m
        { (u.addVariable .slack none).2 with phaseOne := some (Goal.ofExpr d.expr .fixed) } :=
      hadd.of_eq rfl rfl rfl rfl rfl rfl
    have hmeasured : t.Embeds m (u.measured d) := by
      refine hphase.attach_outside (r := ⟨d.row, u.artificial, d.expr⟩) hp.nodup ?_
      rintro w (rfl | hw)
      · exact ha
      · exact hexpr w hw
    have hleast := hmeasured.minimise_outside ht hpf.measured.1 fun w hw => by
      rw [objective, Tableau.measured, phaseOne_attach] at hw
      exact hexpr w ((Goal.Tidy.ofExpr d.expr .fixed).2 w hw)
    have hclear : t.Embeds m { ((u.measured d).minimise .phaseOne).2 with phaseOne := none } :=
      hleast.of_eq rfl rfl rfl rfl rfl rfl
    exact (hclear.retire_outside ht hpf.trial.1.withoutPhaseOne ha _ _).discard_outside ht
      (hpf.trial.1.withoutPhaseOne.retire _ _ _).1 ha

/-- An **insertion** of a request of variables outside leaves the copy alone. -/
theorem insert_outside (h : t.Embeds m u) (ht : t.Linked none) (hu : u.Linked none)
    (hout : ∀ v ∈ request.expr.vars, ¬Inside m t v) :
    t.Embeds m (u.insert request relation).2 := by
  obtain ⟨hdraft, hexpr, hown⟩ := h.draft_outside ht hu hout relation
  have hp := (hu.draft request relation).placeable hu
  have hplaced : t.Embeds m (u.placed request relation).2 := hdraft.place_outside ht hp hexpr hown
  refine insert_cases (p := fun result => t.Embeds m result.2) ?_ ?_ ?_ ?_
  · exact fun _ _ _ => h
  · exact fun _ _ _ => hplaced
  · exact fun _ _ => hplaced.register_right _
  · intro text f _ _
    exact (hplaced.foldl_discard_outside ht (Linked.place hp).1 hown).count_right f

end Embeds

end Insert

end Tableau

end LexSimplex
