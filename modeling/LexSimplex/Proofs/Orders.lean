import LexSimplex.Proofs.Costs

/-!
# Orders

A caller who creates variables and then makes requests may make them in any order, and may
optimise in between. The rows, the bases and the ways by which the goal comes to its minimum all
depend on the order, but neither does what is accepted nor what the minimum is: what is accepted
is what can be met together, and the minimum is what that costs.

## Main definitions

* `Command.Builds`, `Command.Asks`: the commands that take nothing back and pin nothing, and those
  of them that create no variable.
* `Session.Gathering`: a command that builds, names created variables and is settled.
* `Solver.answers`: commands with the replies to them.

## Main results

* `Session.Run.gathered`: gathering commands lead to gathered tableaux.
* `Session.Run.accepts`: a request that was accepted with others is accepted after any of them.
* `Session.Run.goal_eq`: the same requests have the same minimum.
* `Solver.order_irrelevant`: the order of requests makes no difference.
-/

namespace LexSimplex

/-! ### Commands that build -/

namespace Command

variable {K Q : Type}

/-- A command **builds** if it creates a variable, makes a request or optimises. -/
inductive Builds : Command K Q → Prop
  | declare (kind : Kind) (stem : String) : Builds (.declare kind stem)
  | add (request : Request K) (relation : Relation) : Builds (.add request relation)
  | arrange (layout : Layout Q) (strength : Strength) : Builds (.arrange layout strength)
  | optimize : Builds .optimize

instance (c : Command K Q) : Decidable c.Builds :=
  match c with
  | .declare kind stem => .isTrue (.declare kind stem)
  | .add request relation => .isTrue (.add request relation)
  | .arrange layout strength => .isTrue (.arrange layout strength)
  | .optimize => .isTrue .optimize
  | .remove _ | .pin _ _ | .unpin _ | .reset | .resetCounters => .isFalse nofun

/-- A command **asks** for something if it makes a request or optimises. -/
inductive Asks : Command K Q → Prop
  | add (request : Request K) (relation : Relation) : Asks (.add request relation)
  | arrange (layout : Layout Q) (strength : Strength) : Asks (.arrange layout strength)
  | optimize : Asks .optimize

instance (c : Command K Q) : Decidable c.Asks :=
  match c with
  | .add request relation => .isTrue (.add request relation)
  | .arrange layout strength => .isTrue (.arrange layout strength)
  | .optimize => .isTrue .optimize
  | .declare _ _ | .remove _ | .pin _ _ | .unpin _ | .reset | .resetCounters => .isFalse nofun

variable {c : Command K Q}

/-- What asks for something builds. -/
theorem Asks.builds (hc : c.Asks) : c.Builds := by
  cases hc with
  | add request relation => exact .add request relation
  | arrange layout strength => exact .arrange layout strength
  | optimize => exact .optimize

/-- What asks for something makes a request, if it does not optimise. -/
theorem Asks.eq_optimize_or [Coefficient K] [Scalar Q] [Precision K Q] (hc : c.Asks) :
    c = .optimize ∨ ∃ x, c.request? = some x := by
  cases hc with
  | add request relation => exact .inr ⟨_, rfl⟩
  | arrange layout strength => exact .inr ⟨_, rfl⟩
  | optimize => exact .inl rfl

end Command

namespace Session

section Gathering

variable {K Q : Type} [Coefficient K] [Scalar Q] [Precision K Q]

/-- A command is **gathering** if it builds, names only variables of the caller's, and is not
answered with a failure of pivoting. -/
def Gathering (s : Session K Q) (c : Command K Q) : Prop :=
  c.Builds ∧ s.Authored c ∧ Settled (s.solver.perform c).1

instance (s : Session K Q) (c : Command K Q) : Decidable (s.Gathering c) :=
  inferInstanceAs (Decidable (c.Builds ∧ s.Authored c ∧ Settled (s.solver.perform c).1))

end Gathering

end Session

namespace Solver

variable {s : Solver Rat Rat} {c : Command Rat Rat}

/-- What **builds** continues the tableau. -/
theorem continues_perform (h : s.tableau.WellFormed) (hc : c.Builds) :
    s.tableau.Continues (s.perform c).2.tableau := by
  have hadd : ∀ request relation, s.tableau.Continues (s.add request relation).2.tableau := by
    intro request relation
    rw [(s.tableau_add request relation).1]
    exact h.continues_insert request relation
  cases hc with
  | declare kind stem => exact s.tableau.continues_addVariable kind _
  | add request relation => exact hadd request relation
  | arrange layout strength => exact hadd _ _
  | optimize =>
      have hcounted := Tableau.SameVars.count (t := s.tableau)
        fun c => { c with optimize := c.optimize + 1 }
      have hminimised := (h.linked.count fun c =>
        { c with optimize := c.optimize + 1 }).sameVars_minimise .goal
      exact (s.tableau_optimize (p := s.tableau.Continues)
        (hcounted.trans hminimised).continues fun t ht => ht.trans t.continues_settle).1

end Solver

/-! ### Sessions that gather -/

namespace Session

variable {s s' : Session Rat Rat} {c : Command Rat Rat} {x : Request Rat × Relation}

/-- What asks for something creates no variable. -/
theorem created_perform (hc : c.Asks) : (s.perform c).created = s.created := by
  cases hc with
  | add request relation => exact created_learn (fun _ => map_ne_ok (by simp) _) (by simp)
  | arrange layout strength => exact created_learn (fun _ => map_ne_ok (by simp) _) (by simp)
  | optimize => exact created_learn (fun _ => map_ne_ok (by simp) _) (by simp)

/-- What the caller knows after a command that builds. -/
theorem accepted_perform (hc : c.Builds) : (s.perform c).accepted =
    (if (s.solver.perform c).1.toBool then c.request?.toList else []) ++ s.accepted := by
  have hadd : ∀ (o : Except Fault ConstraintId), (s.learn c (o.map Reply.constraint)).accepted =
      (if (o.map Reply.constraint).toBool then c.request?.toList else []) ++ s.accepted := by
    intro o
    cases o with
    | ok id => rfl
    | error fault => exact accepted_learn (fun _ => nofun) (by cases hc <;> simp)
  cases hc with
  | declare kind stem => rfl
  | add request relation => exact hadd _
  | arrange layout strength => exact hadd _
  | optimize =>
      refine (accepted_learn (fun _ => map_ne_ok (by simp) _) (by simp)).trans ?_
      split <;> rfl

/-- What a run that only gathers requests keeps. -/
theorem Run.kept_of_gathering (h : s.Run Gathering) :
    Solver.Keeping (· ∈ s.created) (Tableau.Authored (· ∈ s.created)) s.solver :=
  (h.mono fun _ _ hc => hc.2.1).kept

/-- Adding a request of the caller's gathers it if it is accepted. -/
theorem gathered_add {cs : List (Constraint Rat)}
    (h : s.solver.tableau.Gathered (· ∈ s.created) cs)
    (hrequests : Tableau.requestsOf cs = s.accepted.reverse) {request : Request Rat}
    (hown : ∀ v ∈ request.expr.vars, s.solver.tableau.vars.isLive v → v ∈ s.created)
    (relation : Relation) (hsettled : Settled (s.solver.add request relation).1) :
    ∃ cs', (s.solver.add request relation).2.tableau.Gathered (· ∈ s.created) cs' ∧
      Tableau.requestsOf cs' =
        ((if ((s.solver.add request relation).1.map Reply.constraint).toBool
          then [(request, relation)] else []) ++ s.accepted).reverse := by
  obtain ⟨htableau, -, -, hresult⟩ := s.solver.tableau_add request relation
  have hdrafted := h.steady.faithful.wellFormed.linked.draft request relation
  rw [htableau, hresult]
  rw [hresult] at hsettled
  obtain ⟨hok, hfault⟩ := h.insert hown hsettled
  cases houtcome : (s.solver.tableau.insert request relation).1 with
  | error fault => exact ⟨cs, hfault fault houtcome, hrequests⟩
  | ok id =>
      refine ⟨_, hok id houtcome, ?_⟩
      rw [Tableau.requestsOf, List.map_append, List.map_singleton, hdrafted.request_eq,
        hdrafted.relation_eq, ← Tableau.requestsOf, hrequests]
      exact List.reverse_cons.symm

/-- What **builds** keeps a tableau gathered, and the constraints are what was accepted. -/
theorem gathered_perform {cs : List (Constraint Rat)}
    (h : s.solver.tableau.Gathered (· ∈ s.created) cs)
    (hrequests : Tableau.requestsOf cs = s.accepted.reverse) (hc : s.Gathering c) :
    ∃ cs', (s.perform c).solver.tableau.Gathered (· ∈ (s.perform c).created) cs' ∧
      Tableau.requestsOf cs' = (s.perform c).accepted.reverse := by
  obtain ⟨hbuilds, hnamed, hsettled⟩ := hc
  rw [accepted_perform hbuilds]
  cases hbuilds with
  | declare kind stem =>
      refine ⟨cs, ?_, hrequests⟩
      have hown : (fun v => v = (s.solver.tableau.addVariable kind
          (if stem = "" then none else some stem)).1 ∨ v ∈ s.created) =
          (· ∈ (s.perform (.declare kind stem)).created) :=
        funext fun v => propext List.mem_cons.symm
      exact hown ▸ h.addVariable kind (if stem = "" then none else some stem)
  | add request relation =>
      rw [created_perform (.add request relation)]
      exact gathered_add h hrequests hnamed relation hsettled.of_map
  | arrange layout strength =>
      rw [created_perform (.arrange layout strength)]
      exact gathered_add h hrequests hnamed layout.relation hsettled.of_map
  | optimize =>
      rw [created_perform .optimize]
      refine ⟨cs, (s.solver.tableau_optimize (p := Tableau.Gathered (· ∈ s.created) cs)
        ((h.count _).minimise .goal) fun t ht => ht.settle).1, hrequests.trans ?_⟩
      split <;> rfl

/-- **Gathering** commands lead to gathered tableaux. -/
theorem Run.gathered (h : s.Run Gathering) :
    ∃ cs, s.solver.tableau.Gathered (· ∈ s.created) cs ∧
      Tableau.requestsOf cs = s.accepted.reverse := by
  induction h with
  | start settings =>
      exact ⟨[], .of_nothing (Solver.standing_empty settings).steady (fun _ => rfl) rfl
        fun _ => List.not_mem_nil, rfl⟩
  | step _ hc ih =>
      obtain ⟨cs, hgathered, hrequests⟩ := ih
      exact gathered_perform hgathered hrequests hc

/-- **Acceptance.** What was accepted with others is accepted after any of them, unless pivoting
fails: the values that it has in the one session show that it can be met in the other. -/
theorem Run.accepts (h : s.Run Gathering) (h' : s'.Run Gathering)
    (hcreated : ∀ v ∈ s'.created,
      v ∈ s.created ∧ s'.solver.tableau.kind v = s.solver.tableau.kind v)
    (haccepted : ∀ y ∈ x :: s'.accepted, y ∈ s.accepted)
    (hnamed : ∀ v ∈ x.1.expr.vars, v ∈ s'.created)
    (hsettled : Settled (s'.solver.add x.1 x.2).1) :
    ∃ id, (s'.solver.add x.1 x.2).1 = .ok id := by
  obtain ⟨cs, hgathered, hrequests⟩ := h.gathered
  obtain ⟨cs', hgathered', hrequests'⟩ := h'.gathered
  have hlinked := hgathered.steady.faithful.wellFormed.linked
  have hrespects := hgathered.steady.feasible.respects_rowValue hlinked
  have hcosts := hgathered.costs hlinked.satisfies_rowValue hrespects
  have hmet : ∀ y ∈ s.accepted, ∃ cost, Meets s.solver.tableau.rowValue y cost := by
    intro y hy
    refine exists_costs_iff.mp ⟨_, hcosts⟩ y ?_
    rw [hrequests]
    exact List.mem_reverse.mpr hy
  obtain ⟨cost, hx⟩ := hmet x (haccepted x List.mem_cons_self)
  have hcompatible : s'.solver.tableau.Compatible x.1 x.2 := by
    refine hgathered'.compatible (fun v hv => (hcreated v hv).2 ▸ hrespects v) ?_ hx hnamed
    intro y hy
    rw [hrequests'] at hy
    exact hmet y (haccepted y (List.mem_cons_of_mem x (List.mem_reverse.mp hy)))
  have hlive := fun v hv => hgathered'.isLive v (hnamed v hv)
  rcases h'.reachable.add_verdict hgathered'.steady.feasible hlive x.2 with
    ⟨hid, -⟩ | ⟨-, hnot⟩ | ⟨limit, hlimit⟩
  · exact hid
  · exact absurd hcompatible hnot
  · exact absurd rfl (hsettled _ hlimit)

/-- A run that only gathers requests stays basic-feasible. -/
theorem Run.feasible (h : s.Run Gathering) : s.solver.tableau.BasicFeasible :=
  have ⟨_, hgathered, _⟩ := h.gathered
  hgathered.steady.feasible

/-- Where optimising succeeds the goal comes to the least penalty. -/
theorem Run.isLeastPenalty_optimize (h : s.Run Gathering) (hok : s.solver.optimize.1 = .ok ()) :
    s.solver.tableau.IsLeastPenalty s.solver.optimize.2.tableau.goal.constant := by
  rcases h.reachable.optimize_verdict h.feasible with ⟨-, hleast⟩ | ⟨limit, hlimit⟩
  · exact hleast
  · exact absurd (hok.symm.trans hlimit) (by simp)

/-- **The minimum.** Sessions with the same variables and the same accepted requests, in whatever
order, have the same minimum of the goal. -/
theorem Run.goal_eq (h : s.Run Gathering) (h' : s'.Run Gathering)
    (hcreated : ∀ v, v ∈ s'.created ↔ v ∈ s.created)
    (hkind : ∀ v ∈ s.created, s'.solver.tableau.kind v = s.solver.tableau.kind v)
    (haccepted : s'.accepted.Perm s.accepted) (hok : s.solver.optimize.1 = .ok ())
    (hok' : s'.solver.optimize.1 = .ok ()) :
    s.solver.optimize.2.tableau.goal.constant = s'.solver.optimize.2.tableau.goal.constant := by
  obtain ⟨cs, hgathered, hrequests⟩ := h.gathered
  obtain ⟨cs', hgathered', hrequests'⟩ := h'.gathered
  have hown : (· ∈ s'.created) = (· ∈ s.created) := funext fun v => propext (hcreated v)
  rw [hown] at hgathered'
  have hperm : (Tableau.requestsOf cs').Perm (Tableau.requestsOf cs) := by
    rw [hrequests, hrequests']
    exact ((List.reverse_perm _).trans haccepted).trans (List.reverse_perm _).symm
  exact hgathered.least_eq hgathered' hkind hperm
    (h.isLeastPenalty_optimize hok) (h'.isLeastPenalty_optimize hok')

end Session

/-! ### Lists of commands -/

section Lists

variable {K Q : Type} [Coefficient K] [Scalar Q] [Precision K Q]

/-- Commands, each with the reply to it. -/
def Solver.answers (s : Solver K Q) :
    List (Command K Q) → List (Command K Q × Except Fault Reply)
  | [] => []
  | c :: cs => (c, (s.perform c).1) :: (s.perform c).2.answers cs

/-- A session after a list of commands. -/
def Session.after (s : Session K Q) (cs : List (Command K Q)) : Session K Q :=
  cs.foldl Session.perform s

/-- The solver of a session is the one that its commands lead to. -/
theorem Session.solver_after (s : Session K Q) (cs : List (Command K Q)) :
    (s.after cs).solver = s.solver.run cs := by
  induction cs generalizing s with
  | nil => rfl
  | cons c cs ih => exact ih (s.perform c)

/-- The commands that create variables of given kinds with given stems. -/
def declarations (declared : List (Kind × String)) : List (Command K Q) :=
  declared.map fun x => .declare x.1 x.2

/-- An empty solver with variables created in it. -/
def Solver.begun (settings : Settings) (declared : List (Kind × String)) : Solver K Q :=
  (Solver.empty settings).run (declarations declared)

/-- A request names the variables of its expression. -/
theorem Command.names_of_request? {c : Command K Q} {x : Request K × Relation}
    (hc : c.request? = some x) : c.names = x.1.expr.vars := by
  cases c with
  | pin v x => exact absurd hc (by simp [request?])
  | _ => simp [names, hc]

/-- A request is added. -/
theorem Solver.perform_of_request? {c : Command K Q} {x : Request K × Relation}
    (hc : c.request? = some x) (s : Solver K Q) :
    (s.perform c).1 = (s.add x.1 x.2).1.map .constraint := by
  cases c with
  | add request relation =>
      obtain rfl := Option.some.inj hc
      rfl
  | arrange layout strength =>
      obtain rfl := Option.some.inj hc
      rfl
  | _ => exact absurd hc (by simp [Command.request?])

end Lists

namespace Session

variable {s s' : Session Rat Rat} {c : Command Rat Rat} {cs : List (Command Rat Rat)}

/-- Settled requests for the caller's variables, with optimisations in between, are gathering. -/
theorem Run.after (h : s.Run Gathering) (hcs : ∀ c ∈ cs, c.Asks)
    (hnamed : ∀ c ∈ cs, ∀ v ∈ c.names, v ∈ s.created)
    (hsettled : ∀ x ∈ s.solver.answers cs, Settled x.2) :
    (s.after cs).Run Gathering ∧ (s.after cs).created = s.created ∧
      s.solver.tableau.Continues (s.after cs).solver.tableau := by
  induction cs generalizing s with
  | nil => exact ⟨h, rfl, (Tableau.SameVars.refl _).continues⟩
  | cons c cs ih =>
      rw [Solver.answers, List.forall_mem_cons] at hsettled
      rw [List.forall_mem_cons] at hcs hnamed
      have hbuilds := hcs.1.builds
      have hcreated : (s.perform c).created = s.created := created_perform hcs.1
      have hstep : (s.perform c).Run Gathering :=
        .step h ⟨hbuilds, fun v hv _ => hnamed.1 v hv, hsettled.1⟩
      obtain ⟨hrun, hsame, hcontinues⟩ := ih hstep hcs.2 (hcreated.symm ▸ hnamed.2) hsettled.2
      have hwell := h.kept_of_gathering.tableau.faithful.wellFormed
      have hfirst := Solver.continues_perform hwell hbuilds
      exact ⟨hrun, hsame.trans hcreated, hfirst.trans hcontinues⟩

/-- Where all requests of a list are accepted, the caller knows of them. -/
theorem accepted_after (hcs : ∀ c ∈ cs, c.Asks)
    (hok : ∀ x ∈ s.solver.answers cs, x.1.request?.isSome → x.2.toBool) :
    (s.after cs).accepted = (cs.filterMap Command.request?).reverse ++ s.accepted := by
  induction cs generalizing s with
  | nil => rfl
  | cons c cs ih =>
      rw [Solver.answers, List.forall_mem_cons] at hok
      rw [List.forall_mem_cons] at hcs
      have hperform := accepted_perform (s := s) hcs.1.builds
      have hafter : (s.after (c :: cs)).accepted = ((s.perform c).after cs).accepted := rfl
      rw [hafter, ih hcs.2 hok.2, hperform]
      cases hrequest : c.request? with
      | none =>
          rw [List.filterMap_cons_none hrequest, Option.toList_none, ite_self, List.nil_append]
      | some x =>
          rw [List.filterMap_cons_some hrequest, if_pos (hok.1 (by rw [hrequest]; rfl)),
            List.reverse_cons, List.append_assoc]
          rfl

/-- A gathering session optimises, unless pivoting fails. -/
theorem Run.optimize_ok (h : s.Run Gathering) (hsettled : Settled s.solver.optimize.1) :
    s.solver.optimize.1 = .ok () := by
  rcases h.reachable.optimize_verdict h.feasible with
    ⟨hok, -⟩ | ⟨limit, hlimit⟩
  · exact hok
  · exact absurd rfl (hsettled _ hlimit)

/-- Requests that were accepted in one session are **all accepted** in another that has no further
ones, and the optimisations between them succeed. -/
theorem Run.accepts_all (h : s.Run Gathering) (h' : s'.Run Gathering)
    (hcreated : ∀ v ∈ s'.created,
      v ∈ s.created ∧ s'.solver.tableau.kind v = s.solver.tableau.kind v)
    (hcs : ∀ c ∈ cs, c.Asks)
    (hnamed : ∀ c ∈ cs, ∀ v ∈ c.names, v ∈ s'.created)
    (hsettled : ∀ x ∈ s'.solver.answers cs, Settled x.2)
    (haccepted : ∀ y ∈ cs.filterMap Command.request? ++ s'.accepted, y ∈ s.accepted) :
    ∀ x ∈ s'.solver.answers cs, x.2.toBool := by
  induction cs generalizing s' with
  | nil => exact fun x hx => absurd hx List.not_mem_nil
  | cons c cs ih =>
      rw [Solver.answers, List.forall_mem_cons] at hsettled
      rw [List.forall_mem_cons] at hcs hnamed
      have hbuilds := hcs.1.builds
      have hstep : (s'.perform c).Run Gathering :=
        .step h' ⟨hbuilds, fun v hv _ => hnamed.1 v hv, hsettled.1⟩
      have hsame : (s'.perform c).created = s'.created := created_perform hcs.1
      have hwell := h'.kept_of_gathering.tableau.faithful.wellFormed
      have hcontinues := Solver.continues_perform hwell hbuilds
      rw [Solver.answers, List.forall_mem_cons]
      refine ⟨?_, ih hstep (fun v hv => ?_) hcs.2 (hsame.symm ▸ hnamed.2) hsettled.2 fun y hy => ?_⟩
      · rcases hcs.1.eq_optimize_or with rfl | ⟨x, hx⟩
        · have hok := h'.optimize_ok (hsettled.1.of_map (f := fun _ => Reply.done))
          exact congrArg (fun o : Except Fault Unit => (o.map fun _ => Reply.done).toBool) hok
        · have hnames := Command.names_of_request? hx
          rw [Solver.perform_of_request? hx] at hsettled ⊢
          rw [List.filterMap_cons_some hx, List.cons_append, List.forall_mem_cons] at haccepted
          have hothers : ∀ y ∈ x :: s'.accepted, y ∈ s.accepted := List.forall_mem_cons.mpr
            ⟨haccepted.1, fun y hy => haccepted.2 y (List.mem_append_right _ hy)⟩
          obtain ⟨id, hid⟩ := h.accepts h' hcreated hothers (hnames ▸ hnamed.1) hsettled.1.of_map
          rw [hid]
          rfl
      · rw [hsame] at hv
        obtain ⟨hmem, hkind⟩ := hcreated v hv
        exact ⟨hmem, (hcontinues.kind_eq (h'.kept_of_gathering.tableau.isLive v hv)).trans hkind⟩
      · refine haccepted y ?_
        rw [accepted_perform hbuilds] at hy
        cases hrequest : c.request? with
        | none => simpa [hrequest] using hy
        | some x =>
            rw [hrequest] at hy
            rw [List.filterMap_cons_some hrequest]
            split at hy
            · simpa [or_assoc, or_left_comm] using hy
            · exact List.mem_cons_of_mem x (by simpa using hy)

/-- The variables that commands name are those of their requests. -/
theorem names_subset {cs cs' : List (Command Rat Rat)} {own : VarId → Prop}
    (hcs' : ∀ c ∈ cs', c.Asks)
    (hsub : ∀ x ∈ cs'.filterMap Command.request?, x ∈ cs.filterMap Command.request?)
    (hnamed : ∀ c ∈ cs, ∀ v ∈ c.names, own v) : ∀ c ∈ cs', ∀ v ∈ c.names, own v := by
  intro c hc v hv
  rcases (hcs' c hc).eq_optimize_or with rfl | ⟨x, hx⟩
  · exact absurd hv List.not_mem_nil
  · obtain ⟨d, hd, hdx⟩ :=
      List.mem_filterMap.mp (hsub x (List.mem_filterMap.mpr ⟨c, hc, hx⟩))
    refine hnamed d hd v ?_
    rw [Command.names_of_request? hdx]
    rwa [Command.names_of_request? hx] at hv

/-- Two sessions with the same variables and the same accepted requests are given further requests,
in two orders. What the one accepts the other does, and they have the same minimum. -/
theorem Run.agree (h : s.Run Gathering) (h' : s'.Run Gathering)
    (hcreated : ∀ v, v ∈ s'.created ↔ v ∈ s.created)
    (hkind : ∀ v ∈ s.created, s'.solver.tableau.kind v = s.solver.tableau.kind v)
    (hbefore : s'.accepted.Perm s.accepted) {cs' : List (Command Rat Rat)}
    (hcs : ∀ c ∈ cs, c.Asks)
    (hcs' : ∀ c ∈ cs', c.Asks)
    (hperm : (cs.filterMap Command.request?).Perm (cs'.filterMap Command.request?))
    (hnamed : ∀ c ∈ cs, ∀ v ∈ c.names, v ∈ s.created)
    (hsettled : ∀ x ∈ s.solver.answers cs, Settled x.2)
    (hsettled' : ∀ x ∈ s'.solver.answers cs', Settled x.2)
    (haccepted : ∀ x ∈ s.solver.answers cs, x.1.request?.isSome → x.2.toBool) :
    (∀ x ∈ s'.solver.answers cs', x.2.toBool) ∧
      ((s.after cs).solver.optimize.1 = .ok () → (s'.after cs').solver.optimize.1 = .ok () →
        (s.after cs).solver.optimize.2.tableau.goal.constant =
          (s'.after cs').solver.optimize.2.tableau.goal.constant) := by
  have hnamed' : ∀ c ∈ cs', ∀ v ∈ c.names, v ∈ s'.created := names_subset hcs'
    (fun x hx => hperm.mem_iff.mpr hx) fun c hc v hv => (hcreated v).mpr (hnamed c hc v hv)
  obtain ⟨hrun, hown, hcontinues⟩ := h.after hcs hnamed hsettled
  obtain ⟨hrun', hown', hcontinues'⟩ := h'.after hcs' hnamed' hsettled'
  have hlist := accepted_after hcs haccepted
  have hall : ∀ x ∈ s'.solver.answers cs', x.2.toBool := by
    refine hrun.accepts_all h' (fun v hv => ?_) hcs' hnamed' hsettled' fun y hy => ?_
    · have hv : v ∈ s.created := (hcreated v).mp hv
      exact ⟨hown.symm ▸ hv, (hkind v hv).trans
        (hcontinues.kind_eq (h.kept_of_gathering.tableau.isLive v hv)).symm⟩
    · rw [hlist]
      rcases List.mem_append.mp hy with hy | hy
      · exact List.mem_append_left _ (List.mem_reverse.mpr (hperm.mem_iff.mpr hy))
      · exact List.mem_append_right _ (hbefore.mem_iff.mp hy)
  refine ⟨hall, hrun.goal_eq hrun' (fun v => ?_) (fun v hv => ?_) ?_⟩
  · rw [hown, hown']
    exact hcreated v
  · rw [hown] at hv
    have hlive' := h'.kept_of_gathering.tableau.isLive v ((hcreated v).mpr hv)
    rw [hcontinues'.kind_eq hlive', hkind v hv,
      hcontinues.kind_eq (h.kept_of_gathering.tableau.isLive v hv)]
  · rw [hlist, accepted_after hcs' fun x hx _ => hall x hx]
    exact (((List.reverse_perm _).trans hperm.symm).trans (List.reverse_perm _).symm).append hbefore

/-- Variables that are created first have the handles from zero on. They fill the slots up to the
next one. -/
theorem after_declarations (settings : Settings) (declared : List (Kind × String)) :
    let s : Session Rat Rat := (start settings).after (declarations declared)
    s.Run Gathering ∧ s.accepted = [] ∧ (∀ v, v ∈ s.created ↔ v.index < declared.length) ∧
      ∀ v, (s.solver.tableau.vars.get? v).map Variable.kind =
        (declared[v.index]?).map Prod.fst := by
  induction declared using List.reverseRecOn with
  | nil => exact ⟨.start settings, rfl, fun v => by simp [after, declarations, start], fun v => rfl⟩
  | append_singleton declared x ih =>
      obtain ⟨hrun, haccepted, hcreated, hkind⟩ := ih
      set s : Session Rat Rat := (start settings).after (declarations declared) with hs
      obtain ⟨name, hget⟩ := s.solver.tableau.get?_addVariable x.1
        (if x.2 = "" then none else some x.2)
      have hlive : ∀ i, s.solver.tableau.vars.slots.isLive i ↔ i < declared.length := by
        intro i
        have hsome := congrArg Option.isSome (hkind ⟨i⟩)
        rw [Option.isSome_map, Option.isSome_map] at hsome
        exact (Bool.eq_iff_iff.mp hsome).trans (by simp)
      have hnew : (s.solver.tableau.addVariable x.1 (if x.2 = "" then none else some x.2)).1 =
          ⟨declared.length⟩ := congrArg VarId.mk (Pool.nextFree_eq hlive)
      have hafter : (start settings : Session Rat Rat).after (declarations (declared ++ [x])) =
          s.perform (.declare x.1 x.2) := by
        rw [declarations, List.map_append, after, List.foldl_append]
        rfl
      have hindex : ∀ v : VarId, v = ⟨declared.length⟩ ↔ v.index = declared.length :=
        fun _ => ⟨congrArg VarId.index, congrArg VarId.mk⟩
      rw [hafter]
      refine ⟨.step hrun ⟨.declare x.1 x.2, fun v hv => absurd hv List.not_mem_nil, fun _ => nofun⟩,
        haccepted, fun v => ?_, fun v => ?_⟩
      · have hcreated' : (s.perform (.declare x.1 x.2)).created = ⟨declared.length⟩ :: s.created :=
          congrArg (· :: s.created) hnew
        rw [hcreated', List.mem_cons, hcreated, List.length_append, List.length_singleton,
          Nat.lt_succ_iff_lt_or_eq, or_comm, hindex]
      · refine (congrArg _ (hget v)).trans ?_
        rw [hnew]
        by_cases hv : v = ⟨declared.length⟩
        · rw [if_pos hv, hv, List.getElem?_concat_length]
          rfl
        · have hne : v.index ≠ declared.length := fun heq => hv ((hindex v).mpr heq)
          rw [if_neg hv, hkind]
          by_cases hlt : v.index < declared.length
          · rw [List.getElem?_append_left hlt]
          · rw [List.getElem?_eq_none (by omega), List.getElem?_eq_none]
            rw [List.length_append, List.length_singleton]
            omega

end Session

namespace Solver

variable {settings settings' : Settings} {declared : List (Kind × String)}
  {cs cs' : List (Command Rat Rat)}

/-- **Order is irrelevant.** Of two solvers with the same variables, let one be given requests for
these and accept all of them, and let the other be given the same requests in another order, each
with optimisations in between. If pivoting fails in neither, the other accepts all requests as well;
and where both are optimised at the end, their goals have the same minimum. -/
theorem order_irrelevant (hcs : ∀ c ∈ cs, c.Asks)
    (hcs' : ∀ c ∈ cs', c.Asks)
    (hperm : (cs.filterMap Command.request?).Perm (cs'.filterMap Command.request?))
    (hnamed : ∀ c ∈ cs, ∀ v ∈ c.names, v.index < declared.length)
    (hsettled : ∀ x ∈ (begun settings declared).answers cs, Settled x.2)
    (hsettled' : ∀ x ∈ (begun settings' declared).answers cs', Settled x.2)
    (haccepted : ∀ x ∈ (begun settings declared).answers cs,
      x.1.request?.isSome → x.2.toBool) :
    (∀ x ∈ (begun settings' declared).answers cs', x.2.toBool) ∧
      (((begun settings declared).run cs).optimize.1 = .ok () →
        ((begun settings' declared).run cs').optimize.1 = .ok () →
        ((begun settings declared).run cs).optimize.2.tableau.goal.constant =
          ((begun settings' declared).run cs').optimize.2.tableau.goal.constant) := by
  obtain ⟨hbegun, hnone, hcreated, hkind⟩ := Session.after_declarations settings declared
  obtain ⟨hbegun', hnone', hcreated', hkind'⟩ := Session.after_declarations settings' declared
  have hagree := hbegun.agree hbegun' (fun v => (hcreated' v).trans (hcreated v).symm)
    (fun v _ => by rw [Tableau.kind, Tableau.kind, hkind, hkind']) (by rw [hnone, hnone']) hcs hcs'
    hperm fun c hc v hv => (hcreated v).mpr (hnamed c hc v hv)
  simp only [Session.solver_after] at hagree
  exact hagree hsettled hsettled' haccepted

/-- Two positions of one variable are asked for at different tiers, and a second variable is to be
at most nine and at least ten after the first. In the one order the goal is optimised halfway. -/
def inward : List (Command Rat Rat) :=
  [.arrange (.greater ⟨1⟩ ⟨0⟩ 10) .fixed, .arrange (.value ⟨0⟩ 4) .medium, .optimize,
    .arrange (.lower ⟨1⟩ ⟨0⟩ 9) .high, .arrange (.value ⟨0⟩ 7) .low]

/-- The other order. -/
def outward : List (Command Rat Rat) :=
  [.arrange (.value ⟨0⟩ 7) .low, .arrange (.lower ⟨1⟩ ⟨0⟩ 9) .high,
    .arrange (.greater ⟨1⟩ ⟨0⟩ 10) .fixed, .arrange (.value ⟨0⟩ 4) .medium]

/-- A solver with two variables. -/
def twofold : Solver Rat Rat :=
  begun {} [(.external, "x"), (.external, "y")]

/-- Both orders are accepted, and end one short of the one request and three of the other. -/
theorem order_irrelevant_of_inward :
    (∀ x ∈ twofold.answers outward, x.2.toBool) ∧
      (twofold.run inward).optimize.2.tableau.goal.constant =
        (twofold.run outward).optimize.2.tableau.goal.constant ∧
      (twofold.run outward).optimize.2.tableau.goal.constant.get .high = 1 ∧
      (twofold.run outward).optimize.2.tableau.goal.constant.get .low = 3 := by
  have hsettled : ∀ x ∈ twofold.answers inward, Settled x.2 := by decide +kernel
  have hsettled' : ∀ x ∈ twofold.answers outward, Settled x.2 := by decide +kernel
  have hok : ∀ x ∈ twofold.answers inward, x.1.request?.isSome → x.2.toBool := by decide +kernel
  obtain ⟨haccepted, hgoal⟩ := order_irrelevant (by decide +kernel) (by decide +kernel)
    (by decide +kernel) (by decide +kernel) hsettled hsettled' hok
  exact ⟨haccepted, hgoal (by decide +kernel) (by decide +kernel), by decide +kernel,
    by decide +kernel⟩

end Solver

end LexSimplex
