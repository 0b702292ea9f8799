import LexSimplex.Proofs.Embedding.Solvers

/-!
# Independent groups

Two groups of variables that no constraint connects share a solver: one goal, one space of handles,
one loop of exchanges that goes by the least handle. Nevertheless neither group notices the other.
If the calls of one group are deleted from a run, the other group's requests are accepted or refused
as before, and its variables have the same values after every call. No law of arithmetic is used, so
this holds of numbers that round as well as of exact ones.

The run that remains has its own handles. A variable of the group that stays is renamed in the
order of creation: its handle in the one run becomes the handle that the same creation got in the
other.

## Main definitions

* `Group`, `Call`, `Shared`: a solver that two groups call.
* `Shared.Separated`: every constraint names variables of one group only.
* `Shared.without`: the calls that remain without the second group.
* `Shared.verdicts`, `Shared.values`: what the first group is told.
* `Shared.Hosts`: the run that remains is embedded in the whole one.

## Main results

* `Shared.Hosts.perform`, `Shared.Hosts.perform_deleted`: what one call does.
* `Shared.Hosts.run`: what a list of calls does.
* `Shared.groups_independent`: the first group does not notice the second.
-/

namespace LexSimplex

/-! ### Calls of two groups -/

/-- Two groups of a caller's variables. -/
inductive Group where
  | first
  | second
  deriving DecidableEq

/-- A command that is given for a group. -/
abbrev Call (K Q : Type) := Group × Command K Q

/-- Whether a call stays where those of the second group are deleted: if it is the first group's,
or optimises. -/
def Call.stays {K Q : Type} : Call K Q → Bool
  | (.first, _) | (_, .optimize) => true
  | _ => false

/-- A call stays in the projection if it is one of the first group's or an optimisation. -/
theorem Call.stays_iff {K Q : Type} {g : Group} {c : Command K Q} :
    Call.stays (g, c) ↔ g = .first ∨ c = .optimize := by
  cases g <;> cases c <;> simp [stays]

/-- Whether a call stays does not depend on the names of variables. -/
theorem Call.stays_rename {K Q : Type} (g : Group) (c : Command K Q) (f : VarId → VarId) :
    Call.stays (g, c.rename f) = Call.stays (g, c) := by
  cases g <;> cases c <;> rfl

/-- What an answer says besides handles and texts. -/
inductive Verdict where
  | accepted
  | infeasible
  | failed
  deriving DecidableEq

/-- The verdict of an answer. -/
def Verdict.of {α : Type} : Except Fault α → Verdict
  | .ok _ => .accepted
  | .error fault => if fault.isInfeasible then .infeasible else .failed

/-- The variable that an answer hands out, if any. -/
def Reply.handed : Except Fault Reply → List VarId
  | .ok (.variable v) => [v]
  | _ => []

/-- A solver with the variables that were created for each group, in order. -/
structure Shared (K Q : Type) where
  solver : Solver K Q
  created : Group → List VarId

namespace Shared

section Calls

variable {K Q : Type} [Coefficient K] [Scalar Q]

/-- An empty solver. -/
def start (settings : Settings) : Shared K Q :=
  ⟨Solver.empty settings, fun _ => []⟩

variable [Precision K Q]

/-- A call carried out. -/
def perform (s : Shared K Q) (x : Call K Q) : Shared K Q where
  solver := (s.solver.perform x.2).2
  created g := s.created g ++ if g = x.1 then Reply.handed (s.solver.perform x.2).1 else []

/-- The solver after a list of calls. -/
def run (s : Shared K Q) (xs : List (Call K Q)) : Shared K Q :=
  xs.foldl perform s

/-- The calls of a list with their answers. -/
def answers (s : Shared K Q) : List (Call K Q) → List (Call K Q × Except Fault Reply)
  | [] => []
  | x :: xs => (x, (s.solver.perform x.2).1) :: (s.perform x).answers xs

/-- The verdicts on the calls of a list that stay without the second group. -/
def verdicts (s : Shared K Q) (xs : List (Call K Q)) : List Verdict :=
  ((s.answers xs).filter (·.1.stays)).map (Verdict.of ·.2)

/-- The verdict of a call that stays comes first. -/
theorem verdicts_cons_of_stays {x : Call K Q} (hx : x.stays) (s : Shared K Q)
    (xs : List (Call K Q)) :
    s.verdicts (x :: xs) = Verdict.of (s.solver.perform x.2).1 :: (s.perform x).verdicts xs := by
  simp [verdicts, answers, hx]

/-- The verdict of a call that does not stay is left out. -/
theorem verdicts_cons_of_not_stays {x : Call K Q} (hx : ¬x.stays) (s : Shared K Q)
    (xs : List (Call K Q)) : s.verdicts (x :: xs) = (s.perform x).verdicts xs := by
  simp [verdicts, answers, hx]

/-- A call is **separate** if it creates, adds or optimises, and names variables of its own group
alone. -/
def Separate (s : Shared K Q) (x : Call K Q) : Prop :=
  x.2.Builds ∧ ∀ v ∈ x.2.mentions, v ∈ s.created x.1

instance (s : Shared K Q) (x : Call K Q) : Decidable (s.Separate x) :=
  inferInstanceAs (Decidable (_ ∧ _))

/-- Every call of a list is separate where it is made. -/
def Separated (s : Shared K Q) : List (Call K Q) → Prop
  | [] => True
  | x :: xs => s.Separate x ∧ (s.perform x).Separated xs

instance decidableSeparated : ∀ (xs : List (Call K Q)) (s : Shared K Q), Decidable (s.Separated xs)
  | [], _ => .isTrue trivial
  | x :: xs, s =>
    haveI := decidableSeparated xs (s.perform x)
    inferInstanceAs (Decidable (_ ∧ _))

/-- The handle that a variable of the first group has in another run, by the order of creation. -/
def counterpart (s s' : Shared K Q) (v : VarId) : VarId :=
  ((s'.created .first)[(s.created .first).idxOf v]?).getD v

/-- The calls that remain **without the second group**: the others are deleted, and those that stay
name the variables as they are called in the run `s'` that remains. -/
def without (s s' : Shared K Q) : List (Call K Q) → List (Call K Q)
  | [] => []
  | x :: xs =>
    if x.stays then
      let y := (x.1, x.2.rename (s.counterpart s'))
      y :: (s.perform x).without (s'.perform y) xs
    else (s.perform x).without s' xs

/-- The values of the first group's variables, in the order of creation. -/
def values (s : Shared K Q) : List Q :=
  (s.created .first).map s.solver.valueOf

end Calls

end Shared

/-! ### What calls leave -/

/-- A command that builds does so with its variables renamed. -/
theorem Command.Builds.rename {K Q : Type} {c : Command K Q} (hc : c.Builds)
    (f : VarId → VarId) : (c.rename f).Builds := by
  cases hc with
  | declare kind stem => exact .declare kind stem
  | add request relation => exact .add _ relation
  | arrange layout strength => exact .arrange _ strength
  | optimize => exact .optimize

section Outcomes

variable {K Q : Type} [Coefficient K] [Scalar Q] [Precision K Q]

/-- A verdict does not depend on what a call answers with. -/
theorem Verdict.of_map {α β : Type} (f : α → β) (o : Except Fault α) : of (o.map f) = of o := by
  cases o <;> rfl

/-- A request for live variables is accepted or infeasible, unless pivoting fails. -/
theorem Verdict.of_insert {t : Tableau K Q} {request : Request K} {relation : Relation}
    (hlive : ∀ v ∈ request.expr.vars, t.vars.isLive v)
    (hsettled : Settled (t.insert request relation).1) :
    of (t.insert request relation).1 =
      if (t.insert request relation).1.toBool then accepted else infeasible := by
  rcases Tableau.insert_of_settled hlive hsettled with ⟨-, id, c, h⟩ | ⟨-, text, f, h⟩
  · rw [h]
    rfl
  · rw [h]
    rfl

namespace Solver

variable {s : Solver K Q} {c : Command K Q} {v : VarId}

/-- A request is inserted into the tableau, and no variable is handed out. -/
theorem perform_add (s : Solver K Q) (request : Request K) (relation : Relation) :
    (s.perform (.add request relation)).1 =
        (s.tableau.insert request relation).1.map .constraint ∧
      (s.perform (.add request relation)).2.tableau = (s.tableau.insert request relation).2 ∧
      Reply.handed (s.perform (.add request relation)).1 = [] := by
  obtain ⟨htableau, -, -, hresult⟩ := s.tableau_add request relation
  refine ⟨congrArg (Except.map Reply.constraint) hresult, htableau, ?_⟩
  have hreply : (s.perform (.add request relation)).1 =
      (s.add request relation).1.map .constraint := rfl
  rw [hreply]
  cases (s.add request relation).1 <;> rfl

/-- A layout under other handles is arranged by adding the renamed request. -/
theorem perform_arrange_rename (s : Solver K Q) {f : VarId → VarId} (hf : f.Injective)
    (layout : Layout Q) (strength : Strength) :
    s.perform ((Command.arrange layout strength).rename f) =
      s.perform (.add ((layout.request strength).rename f) layout.relation) := by
  have harrange : s.perform ((Command.arrange layout strength).rename f) =
      s.perform (.add ((layout.rename f).request strength) (layout.rename f).relation) := rfl
  rw [harrange, Layout.request_rename hf, Layout.relation_rename]

omit [Scalar Q] in
/-- Optimisation succeeds unless pivoting fails. -/
theorem optimize_of_settled (h : Settled s.optimize.1) :
    ((s.tableau.count fun c => { c with optimize := c.optimize + 1 }).minimise .goal).1 = .ok () ∧
      s.optimize.1 = .ok () ∧ s.optimize.2.tableau =
        ((s.tableau.count fun c => { c with optimize := c.optimize + 1 }).minimise
          .goal).2.settle := by
  rw [optimize] at h ⊢
  split at h
  · rename_i hok
    rw [hok]
    exact ⟨rfl, rfl, rfl⟩
  · rename_i fault t hfault
    exact absurd (Tableau.isInternal_of_minimise (congrArg Prod.fst hfault)) (h fault rfl)

/-- Commands that build keep variables live, and what they hand out is live. -/
theorem isLive_perform {n : Nat} (h : s.tableau.Linked none) (hn : s.tableau.Filled n)
    (hc : c.Builds) (hsettled : Settled (s.perform c).1)
    (hv : s.tableau.vars.isLive v ∨ v ∈ Reply.handed (s.perform c).1) :
    (s.perform c).2.tableau.vars.isLive v := by
  have hadd : ∀ request relation, Settled (s.perform (.add request relation)).1 →
      (s.tableau.vars.isLive v ∨ v ∈ Reply.handed (s.perform (.add request relation)).1) →
      (s.perform (.add request relation)).2.tableau.vars.isLive v := by
    intro request relation hsettled hv
    obtain ⟨hresult, htableau, hhanded⟩ := s.perform_add request relation
    have hlive : s.tableau.vars.isLive v :=
      hv.resolve_right fun hmem => absurd (hhanded ▸ hmem) List.not_mem_nil
    rw [htableau]
    refine (hn.insert h (hresult ▸ hsettled).of_map v).mpr ?_
    exact Nat.lt_of_lt_of_le ((hn v).mp hlive) (Nat.le_add_right _ _)
  cases hc with
  | declare kind stem =>
    obtain ⟨hfirst, hfill⟩ := hn.addVariable kind (if stem = "" then none else some stem)
    refine (hfill v).mpr ?_
    rcases hv with hlive | hnew
    · exact Nat.lt_succ_of_lt ((hn v).mp hlive)
    · obtain rfl : v = ⟨n⟩ := (List.mem_singleton.mp hnew).trans hfirst
      exact Nat.lt_succ_self n
  | add request relation => exact hadd request relation hsettled hv
  | arrange layout strength => exact hadd _ _ hsettled hv
  | optimize =>
    have hlive : s.tableau.vars.isLive v := hv.resolve_right <| by
      have hok := (optimize_of_settled hsettled.of_map).2.1
      have hperform : (s.perform .optimize).1 = s.optimize.1.map fun _ => .done := rfl
      rw [hperform, hok]
      exact List.not_mem_nil
    refine (s.tableau_optimize (p := fun t => t.vars.isLive v) ?_ fun t ht =>
      (t.isLive_settle v).mpr ht).1
    exact ((Tableau.SameVars.count _).trans
      ((h.count _).sameVars_minimise .goal)).isLive_iff v |>.mpr hlive

end Solver

end Outcomes

/-! ### A run within another -/

namespace Shared

variable {K Q : Type} [Coefficient K] [Scalar Q] {m m' : Renaming} {s s' : Shared K Q}
  {n k : Nat} {v : VarId}

/-- A run with two groups **hosts** one with the first group alone if the tableau of this is
embedded in that of the whole, the variables of the first group are the copies of those of the
part, and those of the second group lie outside. -/
structure Hosts (m : Renaming) (s s' : Shared K Q) : Prop where
  hosted : Tableau.Hosted m s'.solver.tableau s.solver.tableau
  created : s.created .first = (s'.created .first).map m.var
  isLive : ∀ v ∈ s'.created .first, s'.solver.tableau.vars.isLive v
  outside : ∀ v ∈ s.created .second,
    s.solver.tableau.vars.isLive v ∧ ¬Tableau.Inside m s'.solver.tableau v

/-- An empty solver hosts an empty one. -/
theorem hosts_start (m : Renaming) (settings settings' : Settings) :
    Hosts m (start settings : Shared K Q) (start settings') := by
  have hwell : ∀ settings, (start settings : Shared K Q).solver.tableau.WellFormed := fun _ =>
    .of_nothing rfl rfl rfl (fun _ => rfl) fun _ => rfl
  have hdead : ∀ v, ¬(start settings' : Shared K Q).solver.tableau.vars.isLive v := fun _ => nofun
  refine ⟨⟨⟨fun v x hx => ?_, fun r hr => ?_, fun v hv => ?_⟩, hwell settings', hwell settings,
    ⟨0, Tableau.filled_empty settings'⟩, 0, Tableau.filled_empty settings⟩, rfl, fun v hv => ?_,
    fun v hv => ?_⟩
  · exact absurd (VariablePool.isLive_iff.mpr ⟨x, hx⟩) (hdead v)
  · exact absurd hr List.not_mem_nil
  · exact absurd hv (hdead v)
  · exact absurd hv List.not_mem_nil
  · exact absurd hv List.not_mem_nil

namespace Hosts

omit [Scalar Q] in
/-- The variables of the first group are the copies of their counterparts. -/
theorem counterpart (h : Hosts m s s') (hv : v ∈ s.created .first) :
    s.counterpart s' v ∈ s'.created .first ∧ m.var (s.counterpart s' v) = v := by
  have hget := List.getElem?_idxOf hv
  rw [Shared.counterpart]
  generalize (s.created .first).idxOf v = i at hget ⊢
  rw [h.created, List.getElem?_map] at hget
  obtain ⟨w, hw, rfl⟩ := Option.map_eq_some_iff.mp hget
  rw [hw]
  exact ⟨List.mem_of_getElem? hw, rfl⟩

omit [Scalar Q] in
/-- The handles to come can be renamed to handles to come. -/
theorem exists_aligned (h : Hosts m s s') : ∃ m' n k, Hosts m' s s' ∧
    s'.solver.tableau.Filled n ∧ s.solver.tableau.Filled k ∧ m'.Aligned n k := by
  obtain ⟨m', n, k, hosted, hn, hk, hm, hvar⟩ := h.hosted.exists_aligned
  refine ⟨m', n, k, ⟨hosted, ?_, h.isLive, fun v hv => ?_⟩, hn, hk, hm⟩
  · exact h.created.trans (List.map_congr_left fun v hv => (hvar v (h.isLive v hv)).symm)
  · refine ⟨(h.outside v hv).1, fun ⟨w, hw, he⟩ => (h.outside v hv).2 ⟨w, hw, ?_⟩⟩
    rw [← hvar w hw, he]

variable [Precision K Q] {c c' : Command K Q} {g : Group}

/-- The same values are read in both runs. -/
theorem values_eq (h : Hosts m s s') : s.values = s'.values := by
  rw [values, values, h.created, List.map_map]
  refine List.map_congr_left fun v hv => congrArg Precision.narrow ?_
  exact h.hosted.embeds.value_eq h.hosted.wellFormed.linked h.hosted.wellFormed_host.linked
    (h.isLive v hv)

/-- A step of both runs. -/
theorem step (h : Hosts m s s') (hn : s'.solver.tableau.Filled n) (hk : s.solver.tableau.Filled k)
    (hm : m.Aligned n k) (hc : c.Builds) (hc' : c'.Builds)
    (hsettled : Settled (s.solver.perform c).1) (hsettled' : Settled (s'.solver.perform c').1)
    (hvar : m'.var = m.var)
    (hosted : Tableau.Hosted m' (s'.solver.perform c').2.tableau (s.solver.perform c).2.tableau)
    (hhanded : Reply.handed (s.solver.perform c).1 =
      (Reply.handed (s'.solver.perform c').1).map m.var)
    (hg : g = .first ∨ Reply.handed (s.solver.perform c).1 = []) :
    Hosts m' (s.perform (g, c)) (s'.perform (g, c')) := by
  have hlinked := h.hosted.wellFormed_host.linked
  have hlinked' := h.hosted.wellFormed.linked
  refine ⟨hosted, ?_, fun v hv => ?_, fun v hv => ?_⟩
  · simp only [perform, hvar, List.map_append, h.created, hhanded]
    split <;> rfl
  · refine Solver.isLive_perform hlinked' hn hc' hsettled' ?_
    rcases List.mem_append.mp hv with hv | hv
    · exact .inl (h.isLive v hv)
    · exact .inr (by split at hv <;> first | exact hv | exact absurd hv List.not_mem_nil)
  · have hold : v ∈ s.created .second := by
      refine (List.mem_append.mp hv).resolve_right fun hnew => ?_
      split at hnew
      · rename_i heq
        rcases hg with rfl | hnone
        · exact absurd heq (by simp)
        · exact absurd (hnone ▸ hnew) List.not_mem_nil
      · exact absurd hnew List.not_mem_nil
    obtain ⟨hlive, hout⟩ := h.outside v hold
    refine ⟨Solver.isLive_perform hlinked hk hc hsettled (.inl hlive), ?_⟩
    rw [Tableau.Inside, hvar]
    exact Tableau.not_inside_of_aligned hn hk hm hlive hout _

/-- A step of the whole run for the second group. -/
theorem step_outside (h : Hosts m s s') (hc : c.Builds)
    (hsettled : Settled (s.solver.perform c).1)
    (hosted : Tableau.Hosted m s'.solver.tableau (s.solver.perform c).2.tableau)
    (hout : ∀ v ∈ Reply.handed (s.solver.perform c).1, ¬Tableau.Inside m s'.solver.tableau v) :
    Hosts m (s.perform (.second, c)) s' := by
  obtain ⟨k, hk⟩ := h.hosted.filled_host
  have hlive : ∀ v, s.solver.tableau.vars.isLive v ∨ v ∈ Reply.handed (s.solver.perform c).1 →
      (s.solver.perform c).2.tableau.vars.isLive v := fun _ =>
    Solver.isLive_perform h.hosted.wellFormed_host.linked hk hc hsettled
  refine ⟨hosted, (List.append_nil _).trans h.created, h.isLive, fun v hv => ?_⟩
  rcases List.mem_append.mp hv with hv | hv
  · obtain ⟨hold, hnot⟩ := h.outside v hv
    exact ⟨hlive v (.inl hold), hnot⟩
  · exact ⟨hlive v (.inr hv), hout v hv⟩

/-- The first group requests: the same is accepted in both runs. -/
theorem add (h : Hosts m s s') (hn : s'.solver.tableau.Filled n) (hk : s.solver.tableau.Filled k)
    (hm : m.Aligned n k) {request : Request K} {relation : Relation}
    (hnamed : ∀ v ∈ request.expr.vars, v ∈ s'.created .first)
    (hsettled : Settled (s.solver.perform (.add (request.rename m.var) relation)).1)
    (hsettled' : Settled (s'.solver.perform (.add request relation)).1) :
    Verdict.of (s.solver.perform (.add (request.rename m.var) relation)).1 =
        Verdict.of (s'.solver.perform (.add request relation)).1 ∧
      ∃ m', Hosts m' (s.perform (.first, .add (request.rename m.var) relation))
        (s'.perform (.first, .add request relation)) := by
  obtain ⟨hresult, htableau, hnone⟩ := s.solver.perform_add (request.rename m.var) relation
  obtain ⟨hresult', htableau', hnone'⟩ := s'.solver.perform_add request relation
  have hlive' : ∀ v ∈ request.expr.vars, s'.solver.tableau.vars.isLive v := fun v hv =>
    h.isLive v (hnamed v hv)
  have hlive : ∀ v ∈ (request.rename m.var).expr.vars, s.solver.tableau.vars.isLive v := by
    intro v hv
    rw [Request.rename, LinExpr.vars_rename] at hv
    obtain ⟨w, hw, rfl⟩ := List.mem_map.mp hv
    exact h.hosted.embeds.isLive_of_inside ⟨w, hlive' w hw, rfl⟩
  have hinsert : Settled (s.solver.tableau.insert (request.rename m.var) relation).1 :=
    (hresult ▸ hsettled).of_map
  have hinsert' : Settled (s'.solver.tableau.insert request relation).1 :=
    (hresult' ▸ hsettled').of_map
  obtain ⟨hverdict, m', hvar, hosted⟩ := h.hosted.insert hn hk hm hlive' hinsert' hinsert
  refine ⟨?_, m', h.step hn hk hm (.add ..) (.add ..) hsettled hsettled' hvar ?_ ?_ (.inl rfl)⟩
  · rw [hresult, hresult', Verdict.of_map, Verdict.of_map, Verdict.of_insert hlive hinsert,
      Verdict.of_insert hlive' hinsert', hverdict]
  · rw [htableau, htableau']
    exact hosted
  · rw [hnone, hnone']
    rfl

/-- Both runs optimise. -/
theorem optimize (h : Hosts m s s') (hn : s'.solver.tableau.Filled n)
    (hk : s.solver.tableau.Filled k) (hm : m.Aligned n k) (g : Group)
    (hsettled : Settled (s.solver.perform .optimize).1)
    (hsettled' : Settled (s'.solver.perform .optimize).1) :
    Verdict.of (s.solver.perform .optimize).1 = Verdict.of (s'.solver.perform .optimize).1 ∧
      Hosts m (s.perform (g, .optimize)) (s'.perform (g, .optimize)) := by
  obtain ⟨hleast, hok, htableau⟩ := Solver.optimize_of_settled hsettled.of_map
  obtain ⟨hleast', hok', htableau'⟩ := Solver.optimize_of_settled hsettled'.of_map
  have hreply : (s.solver.perform .optimize).1 = .ok .done := congrArg (Except.map _) hok
  have hreply' : (s'.solver.perform .optimize).1 = .ok .done := congrArg (Except.map _) hok'
  refine ⟨by rw [hreply, hreply'], h.step hn hk hm .optimize .optimize hsettled hsettled' rfl ?_ ?_
    (.inr (by rw [hreply]; rfl))⟩
  · have hperform : (s.solver.perform .optimize).2.tableau = _ := htableau
    have hperform' : (s'.solver.perform .optimize).2.tableau = _ := htableau'
    rw [hperform, hperform']
    exact h.hosted.minimise _ _ hleast' hleast
  · rw [hreply, hreply']
    rfl

/-- A call that stays, as it is called in both runs. -/
theorem perform_rename (h : Hosts m s s') (hn : s'.solver.tableau.Filled n)
    (hk : s.solver.tableau.Filled k) (hm : m.Aligned n k) (hc : c.Builds)
    (hstays : Call.stays (g, c)) (hnamed : ∀ v ∈ c.mentions, v ∈ s'.created .first)
    (hsettled : Settled (s.solver.perform (c.rename m.var)).1)
    (hsettled' : Settled (s'.solver.perform c).1) :
    Verdict.of (s.solver.perform (c.rename m.var)).1 = Verdict.of (s'.solver.perform c).1 ∧
      ∃ m', Hosts m' (s.perform (g, c.rename m.var)) (s'.perform (g, c)) := by
  cases hc with
  | declare kind stem =>
    obtain rfl : g = .first := (Call.stays_iff.mp hstays).resolve_right nofun
    obtain ⟨hnew, hosted⟩ := h.hosted.declare hn hk hm kind (if stem = "" then none else some stem)
      (if stem = "" then none else some stem)
    exact ⟨rfl, m, h.step hn hk hm (.declare ..) (.declare ..) hsettled hsettled' rfl hosted
      (congrArg (fun v => [v]) hnew) (.inl rfl)⟩
  | add request relation =>
    obtain rfl : g = .first := (Call.stays_iff.mp hstays).resolve_right nofun
    exact h.add hn hk hm hnamed hsettled hsettled'
  | arrange layout strength =>
    obtain rfl : g = .first := (Call.stays_iff.mp hstays).resolve_right nofun
    have hrename := s.solver.perform_arrange_rename m.var_injective layout strength
    have hperform : s.perform (.first, (Command.arrange layout strength).rename m.var) =
        s.perform (.first, .add ((layout.request strength).rename m.var) layout.relation) := by
      rw [Shared.perform, Shared.perform, hrename]
    rw [hrename] at hsettled ⊢
    rw [hperform]
    exact h.add hn hk hm (fun v hv => hnamed v (layout.vars_request strength hv)) hsettled hsettled'
  | optimize =>
    obtain ⟨hverdict, hstep⟩ := h.optimize hn hk hm g hsettled hsettled'
    exact ⟨hverdict, m, hstep⟩

/-- A call that **stays** has the same verdict in both runs, and the part stays a part. -/
theorem perform (h : Hosts m s s') {x : Call K Q} (hstays : x.stays) (hx : s.Separate x)
    (hsettled : Settled (s.solver.perform x.2).1)
    (hsettled' : Settled (s'.solver.perform (x.2.rename (s.counterpart s'))).1) :
    Verdict.of (s.solver.perform x.2).1 =
        Verdict.of (s'.solver.perform (x.2.rename (s.counterpart s'))).1 ∧
      ∃ m', Hosts m' (s.perform x) (s'.perform (x.1, x.2.rename (s.counterpart s'))) := by
  obtain ⟨g, c⟩ := x
  obtain ⟨hc, hmentions⟩ := hx
  have hnamed : ∀ v ∈ c.mentions, v ∈ s.created .first := by
    rcases Call.stays_iff.mp hstays with rfl | rfl
    · exact hmentions
    · exact fun v hv => absurd hv List.not_mem_nil
  obtain ⟨m', n, k, h', hn, hk, hm⟩ := h.exists_aligned
  have hback : (c.rename (s.counterpart s')).rename m'.var = c :=
    Command.rename_rename_of_forall fun v hv => (h'.counterpart (hnamed v hv)).2
  have hstays' : Call.stays (g, c.rename (s.counterpart s')) :=
    (Call.stays_rename g c _).trans hstays
  have hnamed' : ∀ v ∈ (c.rename (s.counterpart s')).mentions, v ∈ s'.created .first := by
    intro v hv
    rw [Command.mentions_rename] at hv
    obtain ⟨w, hw, rfl⟩ := List.mem_map.mp hv
    exact (h'.counterpart (hnamed w hw)).1
  have hstep := h'.perform_rename hn hk hm (hc.rename (s.counterpart s')) hstays' hnamed'
  rw [hback] at hstep
  exact hstep hsettled hsettled'

/-- A call that is **deleted** leaves no trace in the part. -/
theorem perform_deleted (h : Hosts m s s') {x : Call K Q} (hdeleted : ¬x.stays)
    (hx : s.Separate x) (hsettled : Settled (s.solver.perform x.2).1) :
    Hosts m (s.perform x) s' := by
  obtain ⟨g, c⟩ := x
  obtain ⟨hc, hmentions⟩ := hx
  obtain rfl : g = .second := by
    cases g with
    | first => exact absurd (Call.stays_iff.mpr (.inl rfl)) hdeleted
    | second => rfl
  have hadd : ∀ (request : Request K) relation, (∀ v ∈ request.expr.vars, v ∈ s.created .second) →
      Settled (s.solver.perform (.add request relation)).1 →
      Hosts m (s.perform (.second, .add request relation)) s' := by
    intro request relation hnamed hsettled
    obtain ⟨hresult, htableau, hnone⟩ := s.solver.perform_add request relation
    refine h.step_outside (.add ..) hsettled ?_ fun v hv => absurd (hnone ▸ hv) List.not_mem_nil
    rw [htableau]
    exact h.hosted.insert_outside (fun v hv => (h.outside v (hnamed v hv)).2)
      (hresult ▸ hsettled).of_map
  cases hc with
  | declare kind stem =>
    obtain ⟨hout, hosted⟩ := h.hosted.declare_outside kind (if stem = "" then none else some stem)
    exact h.step_outside (.declare ..) hsettled hosted fun v hv => List.mem_singleton.mp hv ▸ hout
  | add request relation => exact hadd request relation hmentions hsettled
  | arrange layout strength =>
    exact hadd _ _ (fun v hv => hmentions v (layout.vars_request strength hv)) hsettled
  | optimize => exact absurd (Call.stays_iff.mpr (.inr rfl)) hdeleted

/-- What holds of one call holds of a list of calls. -/
theorem run (h : Hosts m s s') {xs : List (Call K Q)} (hxs : s.Separated xs)
    (hsettled : ∀ x ∈ s.answers xs, Settled x.2)
    (hsettled' : ∀ x ∈ s'.answers (s.without s' xs), Settled x.2) :
    s.verdicts xs = s'.verdicts (s.without s' xs) ∧
      ∀ ys, ys <+: xs → ∃ m', Hosts m' (s.run ys) (s'.run (s.without s' ys)) := by
  induction xs generalizing m s s' with
  | nil =>
    refine ⟨rfl, fun ys hys => ?_⟩
    obtain rfl := List.prefix_nil.mp hys
    exact ⟨m, h⟩
  | cons x xs ih =>
    obtain ⟨hx, hxs⟩ := hxs
    rw [answers, List.forall_mem_cons] at hsettled
    by_cases hstays : x.stays
    · set y : Call K Q := (x.1, x.2.rename (s.counterpart s'))
      have hwithout : ∀ zs, s.without s' (x :: zs) =
          y :: (s.perform x).without (s'.perform y) zs := fun zs => if_pos hstays
      rw [hwithout, answers, List.forall_mem_cons] at hsettled'
      obtain ⟨hverdict, m', h'⟩ := h.perform hstays hx hsettled.1 hsettled'.1
      obtain ⟨hverdicts, hruns⟩ := ih h' hxs hsettled.2 hsettled'.2
      refine ⟨?_, fun ys hys => ?_⟩
      · have hstays' : y.stays := (Call.stays_rename x.1 x.2 _).trans hstays
        rw [hwithout, verdicts_cons_of_stays hstays, verdicts_cons_of_stays hstays', hverdicts]
        exact congrArg (· :: _) hverdict
      · rcases List.prefix_cons_iff.mp hys with rfl | ⟨zs, rfl, hzs⟩
        · exact ⟨m, h⟩
        · rw [hwithout]
          exact hruns zs hzs
    · have hwithout : ∀ zs, s.without s' (x :: zs) = (s.perform x).without s' zs := fun zs =>
        if_neg hstays
      rw [hwithout] at hsettled'
      obtain ⟨hverdicts, hruns⟩ :=
        ih (h.perform_deleted hstays hx hsettled.1) hxs hsettled.2 hsettled'
      refine ⟨?_, fun ys hys => ?_⟩
      · rw [hwithout, verdicts_cons_of_not_stays hstays, hverdicts]
      · rcases List.prefix_cons_iff.mp hys with rfl | ⟨zs, rfl, hzs⟩
        · exact ⟨m, h⟩
        · rw [hwithout]
          exact hruns zs hzs

end Hosts

/-! ### The groups are independent -/

variable [Precision K Q]

/-- **Independent groups.** Let the variables of a run be those of two groups, and every constraint
be about variables of one group only. Delete the second group's variables and constraints. If
pivoting fails in neither run, the first group's requests are accepted or refused as before, and its
variables have the same values after every call. -/
theorem groups_independent (settings settings' : Settings) (calls : List (Call K Q))
    (hseparated : (start settings).Separated calls)
    (hsettled : ∀ x ∈ (start settings).answers calls, Settled x.2)
    (hsettled' : ∀ x ∈ (start settings').answers
      ((start settings).without (start settings') calls), Settled x.2) :
    (start settings).verdicts calls =
        (start settings').verdicts ((start settings).without (start settings') calls) ∧
      ∀ ys, ys <+: calls → ((start settings).run ys).values =
        ((start settings').run ((start settings).without (start settings') ys)).values := by
  have hstart := hosts_start (K := K) (Q := Q) ⟨id, id, Iff.rfl, Function.injective_id⟩ settings
    settings'
  obtain ⟨hverdicts, hruns⟩ := hstart.run hseparated hsettled hsettled'
  refine ⟨hverdicts, fun ys hys => ?_⟩
  obtain ⟨m, h⟩ := hruns ys hys
  exact h.values_eq

/-- Two shelves of two boxes each are laid out by turns. The third request for the first shelf
contradicts its first one. -/
def shelves : List (Call Float Float32) :=
  [(.second, .declare .external "left"), (.first, .declare .external "left"),
    (.second, .declare .external "right"), (.first, .declare .external "right"),
    (.second, .arrange (.greater ⟨2⟩ ⟨0⟩ 0.3) .fixed),
    (.first, .arrange (.greater ⟨3⟩ ⟨1⟩ 10) .fixed),
    (.second, .arrange (.value ⟨2⟩ 0.7) .low), (.first, .arrange (.value ⟨3⟩ 4) .medium),
    (.first, .arrange (.lower ⟨3⟩ ⟨1⟩ 9) .fixed), (.second, .optimize),
    (.first, .arrange (.value ⟨1⟩ 0.1) .high), (.second, .arrange (.value ⟨0⟩ 7) .medium),
    (.first, .optimize)]

/-- The boxes of the first shelf come to 0.1 and 10.1, with the second shelf and without it. -/
theorem groups_independent_of_shelves :
    ((start {}).run shelves).values = [0.1, 10.1] ∧
      ((start {}).run ((start {}).without (start {}) shelves)).values = [0.1, 10.1] ∧
      (start {}).verdicts ((start {}).without (start {}) shelves) = (start {}).verdicts shelves ∧
      Verdict.infeasible ∈ (start {}).verdicts shelves := by
  have hseparated : (start {}).Separated shelves := by decide +kernel
  have hsettled : ∀ x ∈ (start {}).answers shelves, Settled x.2 := by decide +kernel
  have hsettled' : ∀ x ∈ (start {}).answers ((start {}).without (start {}) shelves),
      Settled x.2 := by decide +kernel
  have hvalues : ((start {}).run shelves).values = [0.1, 10.1] := by decide +kernel
  have hverdict : Verdict.infeasible ∈ (start {}).verdicts shelves := by decide +kernel
  obtain ⟨hverdicts, hruns⟩ := groups_independent {} {} shelves hseparated hsettled hsettled'
  exact ⟨hvalues, (hruns shelves List.prefix_rfl).symm.trans hvalues, hverdicts.symm, hverdict⟩

end Shared

end LexSimplex
