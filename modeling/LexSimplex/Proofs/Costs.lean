import LexSimplex.Proofs.Attribution
import LexSimplex.Proofs.Optimality
import LexSimplex.Proofs.Satisfiability

/-!
# What values cost

A request can be judged without a tableau. Given values of the caller's variables, the variables
that would be made for it have to make up for what its expression is off zero, and at their prices
that costs something. So values meet a list of requests at certain costs, and in which order the
list has them makes no difference.

A tableau without pinned variables says just this of the constraints that were gathered in it: its
solutions that respect the kinds are the ways in which values of the caller's variables meet the
requests, and the penalty of a solution is what it costs. The constraints are a list beside the
tableau, since one whose handle was given out again is no longer listed but still in force.

## Main definitions

* `Makes`, `Meets`: the values meet a request, with given values of its parts, or with some.
* `Costs`: the values meet all requests of a list, at a cost in sum.
* `Tableau.Gathered`: a tableau and the list of all constraints in force in it, without pinned
  variables.

## Main results

* `Costs.perm`: the order of the requests makes no difference.
* `Tableau.Gathered.insert`: an accepted request is gathered, and one that fails is not.
* `Tableau.Gathered.costs`: a solution meets the requests of the constraints at its penalty.
* `Tableau.Gathered.exists_of_costs`: values that meet them are extended by a solution.
* `Tableau.Gathered.compatible`, `Tableau.Gathered.least_eq`: so acceptance and the least penalty
  are a matter of the requests.
-/

namespace LexSimplex

variable {a b : Assignment} {x : Request Rat × Relation} {xs ys : List (Request Rat × Relation)}
  {cost : Strength → Rat}

/-! ### Requests -/

/-- With the values `zs` of its parts an assignment **makes** a request an equation, and this costs
what the parts cost. -/
structure Makes (a : Assignment) (x : Request Rat × Relation) (zs : List Rat)
    (cost : Strength → Rat) : Prop where
  admits : List.Forall₂ (fun p z => p.kind.Admits z) (parts x.1 x.2) zs
  equation : x.1.expr.eval a +
    (List.zipWith (fun p z => p.coefficient * z) (parts x.1 x.2) zs).sum = 0
  cost_eq : ∀ s, cost s = (List.zipWith (fun p z => p.price.get s * z) (parts x.1 x.2) zs).sum

/-- An assignment **meets** a request at a cost if some values of its parts do. -/
def Meets (a : Assignment) (x : Request Rat × Relation) (cost : Strength → Rat) : Prop :=
  ∃ zs, Makes a x zs cost

/-- An assignment meets all requests of a list, which **costs** the sum of what each of them
does. -/
def Costs (a : Assignment) (xs : List (Request Rat × Relation)) (cost : Strength → Rat) : Prop :=
  ∃ costs, List.Forall₂ (Meets a) xs costs ∧ cost = costs.sum

/-- Whether a request is met depends on the variables that it names. -/
theorem Meets.congr (h : Meets a x cost) (hab : ∀ v ∈ x.1.expr.vars, b v = a v) :
    Meets b x cost := by
  obtain ⟨zs, hadmits, hequation, hcost⟩ := h
  refine ⟨zs, hadmits, ?_, hcost⟩
  rw [LinExpr.eval_congr hab]
  exact hequation

/-- What requests cost depends on the values of their variables. -/
theorem Costs.congr (h : Costs a xs cost)
    (hab : ∀ x ∈ xs, ∀ v ∈ x.1.expr.vars, b v = a v) : Costs b xs cost := by
  obtain ⟨costs, hmeets, hsum⟩ := h
  refine ⟨costs, ?_, hsum⟩
  clear hsum
  induction hmeets with
  | nil => exact .nil
  | cons hx _ ih =>
      exact .cons (hx.congr (hab _ List.mem_cons_self))
        (ih fun y hy => hab y (List.mem_cons_of_mem _ hy))

/-- **The order** in which requests are listed makes no difference to what they cost. -/
theorem Costs.perm (h : Costs a xs cost) (hperm : xs.Perm ys) : Costs a ys cost := by
  obtain ⟨costs, hmeets, hsum⟩ := h
  obtain ⟨costs', hmeets', hperm'⟩ : Relation.Comp (List.Forall₂ (Meets a)) List.Perm ys costs := by
    rw [List.forall₂_comp_perm_eq_perm_comp_forall₂]
    exact ⟨xs, hperm.symm, hmeets⟩
  exact ⟨costs', hmeets', hsum.trans hperm'.sum_eq.symm⟩

/-- A list of requests has a cost if each of them does. -/
theorem exists_costs_iff : (∃ cost, Costs a xs cost) ↔ ∀ x ∈ xs, ∃ cost, Meets a x cost := by
  induction xs with
  | nil => exact ⟨fun _ x hx => absurd hx List.not_mem_nil, fun _ => ⟨_, [], .nil, rfl⟩⟩
  | cons x xs ih =>
      rw [List.forall_mem_cons, ← ih]
      constructor
      · rintro ⟨-, costs, hmeets, -⟩
        obtain ⟨cost, rest, hx, hxs, -⟩ := List.forall₂_cons_left_iff.mp hmeets
        exact ⟨⟨cost, hx⟩, _, rest, hxs, rfl⟩
      · rintro ⟨⟨cost, hx⟩, -, rest, hxs, -⟩
        exact ⟨_, cost :: rest, .cons hx hxs, rfl⟩

/-! ### Constraints -/

namespace Constraint

/-- What a constraint is charged, as a sum over its parts. -/
theorem charge_eq_sum (c : Constraint Rat) (s : Strength) (a : Assignment) :
    c.charge s a = (List.zipWith (fun p z => p.price.get s * z) (parts c.request c.relation)
      (c.tag.vars.map a)).sum := by
  rw [charge, List.zipWith_map_right]

end Constraint

namespace Tableau

variable {t t' : Tableau Rat Rat} {own : VarId → Prop} {id : ConstraintId} {c : Constraint Rat}
  {cs cs' : List (Constraint Rat)} {request : Request Rat} {relation : Relation}

/-- The requests of constraints. -/
def requestsOf (cs : List (Constraint Rat)) : List (Request Rat × Relation) :=
  cs.map fun c => (c.request, c.relation)

/-- Where the requests of constraints are met there are values for the own variables of all of
them: each constraint is given the values that its parts had, and the own variables of the others
keep theirs. -/
theorem exists_makes {costs : List (Strength → Rat)}
    (hnodup : (cs.flatMap fun c => c.tag.vars).Nodup)
    (hlength : ∀ c ∈ cs, c.tag.vars.length = (parts c.request c.relation).length)
    (hmeets : List.Forall₂ (Meets a) (requestsOf cs) costs) :
    ∃ b : Assignment, (∀ w, (∀ c ∈ cs, w ∉ c.tag.vars) → b w = a w) ∧
      costs = cs.map (fun c s => c.charge s b) ∧
      ∀ c ∈ cs, Makes a (c.request, c.relation) (c.tag.vars.map b) fun s => c.charge s b := by
  induction cs generalizing costs with
  | nil =>
      obtain rfl := List.forall₂_nil_left_iff.mp hmeets
      exact ⟨a, fun _ _ => rfl, rfl, fun c hc => absurd hc List.not_mem_nil⟩
  | cons c cs ih =>
      obtain ⟨cost, rest, ⟨zs, hmakes⟩, hrest, rfl⟩ := List.forall₂_cons_left_iff.mp hmeets
      rw [List.flatMap_cons, List.nodup_append'] at hnodup
      obtain ⟨hown, htail, hdisjoint⟩ := hnodup
      obtain ⟨b', hother, rfl, hall⟩ :=
        ih htail (fun d hd => hlength d (List.mem_cons_of_mem c hd)) hrest
      obtain ⟨b, rfl, hsame⟩ := exists_map_eq hown
        ((hlength c List.mem_cons_self).trans hmakes.admits.length_eq) b'
      have hkept : ∀ d ∈ cs, ∀ v ∈ d.tag.vars, b v = b' v := fun d hd v hv =>
        hsame v fun hvc => hdisjoint hvc (List.mem_flatMap.mpr ⟨d, hd, hv⟩)
      have hcharge : ∀ d ∈ cs, (fun s => d.charge s b) = fun s => d.charge s b' :=
        fun d hd => funext fun s => d.charge_congr s (hkept d hd)
      have hcost : cost = fun s => c.charge s b := funext fun s =>
        (hmakes.cost_eq s).trans (c.charge_eq_sum s b).symm
      refine ⟨b, fun w hw => ?_, ?_, List.forall_mem_cons.mpr ⟨hcost ▸ hmakes, fun d hd => ?_⟩⟩
      · rw [hsame w (hw c List.mem_cons_self),
          hother w fun d hd => hw d (List.mem_cons_of_mem c hd)]
      · rw [List.map_cons, hcost, List.map_congr_left hcharge]
      · rw [hcharge d hd, List.map_congr_left (hkept d hd)]
        exact hall d hd

/-- A tableau **gathers** a list of constraints for a caller whose variables are `own` if it is
steady, if its solutions are those of the constraints and its prices theirs, and if no variable is
pinned. -/
structure Gathered (own : VarId → Prop) (cs : List (Constraint Rat)) (t : Tableau Rat Rat) :
    Prop where
  steady : t.Steady
  isLive : ∀ v, own v → t.vars.isLive v
  upholds : ∀ c ∈ cs, t.Upholds c
  satisfies : ∀ a, (∀ c ∈ cs, c.Holds a) → t.Satisfies a
  named : ∀ c ∈ cs, ∀ v ∈ c.request.expr.vars, own v
  apart : ∀ c ∈ cs, ∀ v ∈ c.tag.vars, ¬own v
  charged : t.Charged cs
  unpinned : ∀ v y, t.vars.get? v = some y → y.pinned = false

/-! ### What keeps a tableau gathered -/

/-- Nothing is gathered in a tableau without variables and rows. -/
theorem Gathered.of_nothing (hsteady : t.Steady) (hvars : ∀ v, t.vars.get? v = none)
    (hrows : t.rows = []) (hown : ∀ v, ¬own v) : t.Gathered own [] := by
  refine ⟨hsteady, fun v hv => absurd hv (hown v), fun c hc => absurd hc List.not_mem_nil,
    fun a _ => ?_, fun c hc => absurd hc List.not_mem_nil, fun c hc => absurd hc List.not_mem_nil,
    ⟨fun c hc => absurd hc List.not_mem_nil, List.nodup_nil,
      fun c hc => absurd hc List.not_mem_nil, fun v hv => absurd ?_ hv⟩, fun v y hy => ?_⟩
  · rw [Satisfies, hrows]
    exact fun r hr => absurd hr List.not_mem_nil
  · rw [price, hvars]
    rfl
  · rw [hvars] at hy
    exact absurd hy (by simp)

/-- A variable of a tableau that continues a gathered one is not pinned. -/
theorem Gathered.unpinned_of_continues (h : t.Gathered own cs) (hcontinues : t.Continues t') :
    ∀ v z, t'.vars.get? v = some z → z.pinned = false := by
  intro v z hz
  rcases hcontinues.new v z hz with ⟨y, hy⟩ | ⟨hunpinned, -⟩
  · obtain ⟨z', hz', -, hpin, -⟩ := hcontinues.old v y hy
    obtain rfl := Option.some.inj (hz.symm.trans hz')
    exact hpin.trans (h.unpinned v y hy)
  · exact hunpinned

/-- A steady tableau that continues a gathered one with the same solutions and prices is
gathered. -/
theorem Gathered.of_continues (h : t.Gathered own cs) (hsteady : t'.Steady)
    (hcontinues : t.Continues t') (hsat : ∀ a, t'.Satisfies a ↔ t.Satisfies a)
    (hprice : ∀ v, t'.price v = t.price v) : t'.Gathered own cs :=
  ⟨hsteady, fun v hv => hcontinues.isLive (h.isLive v hv),
    fun c hc => (h.upholds c hc).continues hcontinues fun a => (hsat a).mp,
    fun a hall => (hsat a).mpr (h.satisfies a hall), h.named, h.apart,
    h.charged.of_price_eq hprice fun _ => hcontinues.isLive, h.unpinned_of_continues hcontinues⟩

/-- A request that is **accepted** is gathered after the others, and one that fails leaves those
that were gathered. -/
theorem Gathered.insert (h : t.Gathered own cs)
    (hown : ∀ v ∈ request.expr.vars, t.vars.isLive v → own v)
    (hsettled : Settled (t.insert request relation).1) :
    (∀ id, (t.insert request relation).1 = .ok id → (t.insert request relation).2.Gathered own
      (cs ++ [(t.draft request relation).1.constraint])) ∧
    ∀ fault, (t.insert request relation).1 = .error fault →
      (t.insert request relation).2.Gathered own cs := by
  have hwell := h.steady.faithful.wellFormed
  have hsteady := h.steady.insert request relation
  have hcontinues := hwell.continues_insert request relation
  have hdrafted := hwell.linked.draft request relation
  obtain ⟨-, haccepted, hrefused⟩ :=
    hwell.linked.satisfies_insert h.steady.faithful.normal request relation
  refine ⟨fun id hid => ?_, fun fault hfault => h.of_continues hsteady hcontinues
    (hrefused fault hfault) (hwell.linked.price_insert_of_harmless hfault (.inl hsettled))⟩
  obtain ⟨-, hlive, hcons⟩ := (hwell.linked.constraints_insert request relation).1 id hid
  have hsat := haccepted id hid
  have hget : (t.insert request relation).2.constraints.get? id =
      some (t.draft request relation).1.constraint := by
    rw [hcons, Assoc.get?_insert, if_pos rfl]
  have hnew := hsteady.upholds hget
  refine ⟨hsteady, fun v hv => hcontinues.isLive (h.isLive v hv), ?_, fun a hall => ?_, ?_, ?_,
    h.charged.insert hwell hid, h.unpinned_of_continues hcontinues⟩
  · exact List.forall_mem_append.mpr ⟨fun c hc => (h.upholds c hc).continues hcontinues
      fun a ha => ((hsat a).mp ha).1, List.forall_mem_singleton.mpr hnew⟩
  · obtain ⟨hold, hlast⟩ := List.forall_mem_append.mp hall
    exact (hsat a).mpr ⟨h.satisfies a hold, hlast _ List.mem_cons_self⟩
  · refine List.forall_mem_append.mpr ⟨h.named, List.forall_mem_singleton.mpr ?_⟩
    rw [hdrafted.request_eq]
    exact fun v hv => hown v hv (hlive v hv)
  · exact List.forall_mem_append.mpr ⟨h.apart, List.forall_mem_singleton.mpr fun v hv hvown =>
      hdrafted.joined.notMem_of_isLive (h.isLive v hvown) hv⟩

/-- A new variable is one of the caller's. -/
theorem Gathered.addVariable (h : t.Gathered own cs) (kind : Kind) (stem : Option String) :
    (t.addVariable kind stem).2.Gathered
      (fun v => v = (t.addVariable kind stem).1 ∨ own v) cs := by
  have hadded := h.of_continues (h.steady.addVariable kind stem)
    (t.continues_addVariable kind stem) (fun _ => satisfies_congr (rows_addVariable t kind stem))
    (price_addVariable t kind stem)
  have hlive := t.isLive_addVariable kind stem
  refine { hadded with
    isLive := fun v hv => (hlive v).mpr (hv.imp_right (h.isLive v)),
    named := fun c hc v hv => .inr (h.named c hc v hv),
    apart := fun c hc v hv => ?_ }
  rintro (rfl | hown)
  · have hdead := (h.upholds c hc).isLive _ hv
    rw [VariablePool.isLive_iff, t.get?_addVariable_fst kind stem] at hdead
    exact absurd hdead (by simp)
  · exact h.apart c hc v hv hown

/-- Counting leaves what was gathered. -/
theorem Gathered.count (h : t.Gathered own cs) (f : Counters → Counters) :
    (t.count f).Gathered own cs :=
  h.of_continues (h.steady.count f) (SameVars.count f).continues
    (fun _ => satisfies_congr (rows_count t f)) (price_of_vars_eq (vars_count _ f))

/-- **Exchanges** keep a tableau gathered. -/
theorem Gathered.minimise (h : t.Gathered own cs) (o : Objective) :
    (t.minimise o).2.Gathered own cs := by
  have hlinked := h.steady.faithful.wellFormed.linked
  have hsame := hlinked.sameVars_minimise o
  exact h.of_continues (h.steady.minimise o) hsame.continues
    (hlinked.satisfies_minimise h.steady.faithful.normal o).2 hsame.price_eq

/-- Settling values leaves what was gathered. -/
theorem Gathered.settle (h : t.Gathered own cs) : t.settle.Gathered own cs := by
  refine h.of_continues h.steady.settle t.continues_settle (fun _ => Iff.rfl) fun v => ?_
  rw [price, price, map_settle t v fun _ _ => rfl]

/-! ### What gathered constraints cost -/

/-- Where no variable is pinned the folded ones are constants, and stand at zero as their kind has
it. -/
theorem Gathered.computed_eq (h : t.Gathered own cs) (ha : t.Respects a) {v : VarId}
    {y : Variable Rat} (hy : t.vars.get? v = some y) (hf : y.isFolded) : y.computed = a v := by
  have hk : y.kind = .constant := by
    rw [Variable.isFolded, h.unpinned v y hy] at hf
    simpa using hf
  rw [h.steady.constant v y hy hk, (ha v).2 ((kind_of_get? hy).trans hk)]

/-- The numbers that a constraint has for variables are those that the variables stand at. -/
theorem Gathered.eval_expr (h : t.Gathered own cs) (hc : c ∈ cs) (ha : t.Respects a) :
    c.expr.eval a = c.request.expr.eval a :=
  (h.upholds c hc).suits.eval_expr fun _ _ hy hf => h.computed_eq ha hy hf

/-- So a caller reads off a solution what it says. -/
theorem Gathered.fold_eq (h : t.Gathered own cs) (ha : t.Respects a) : t.fold a = a := by
  funext v
  rw [fold]
  cases hy : t.vars.get? v with
  | none => rfl
  | some y =>
      split
      · rw [value_of_isFolded hy ‹_›, h.computed_eq ha hy ‹_›]
      · rfl

/-- The penalty of a gathered tableau, all tiers at once. -/
theorem Gathered.get_penalty (h : t.Gathered own cs) (a : Assignment) :
    (t.penalty a).get = (cs.map fun c s => c.charge s a).sum := by
  funext s
  rw [h.charged.get_penalty_eq, Pi.list_sum_apply, List.map_map]
  rfl

/-- A **solution** that respects the kinds meets the requests of the constraints, and its penalty is
what this costs. -/
theorem Gathered.costs (h : t.Gathered own cs) (hsat : t.Satisfies a) (ha : t.Respects a) :
    Costs a (requestsOf cs) (t.penalty a).get := by
  refine ⟨cs.map fun c s => c.charge s a, ?_, h.get_penalty a⟩
  rw [requestsOf, List.forall₂_map_left_iff, List.forall₂_map_right_iff, List.forall₂_same]
  intro c hc
  obtain ⟨hfit, -, hsuits, hholds⟩ := h.upholds c hc
  refine ⟨c.tag.vars.map a, ?_, ?_, fun s => c.charge_eq_sum s a⟩
  · exact (forall₂_admits_iff hsuits.kinds a).mpr fun v _ => ha v
  · rw [← h.eval_expr hc ha, ← hfit.eval_equation_parts]
    exact hholds a hsat

/-- Values of the caller's variables that meet the requests of the constraints are extended by a
**solution** that respects the kinds, with what they cost as its penalty: the own variables of the
constraints are given the values of the parts, and what is neither the caller's nor a constraint's
is put to zero. -/
theorem Gathered.exists_of_costs (h : t.Gathered own cs)
    (hadmits : ∀ v, own v → (t.kind v).Admits (a v)) (hcosts : Costs a (requestsOf cs) cost) :
    ∃ b, t.Satisfies b ∧ t.Respects b ∧ (∀ v, own v → b v = a v) ∧ (t.penalty b).get = cost := by
  classical
  set a' : Assignment := fun v => if own v then a v else 0 with ha'
  have hsame : ∀ v, own v → a' v = a v := fun v hv => if_pos hv
  have hnamed : ∀ x ∈ requestsOf cs, ∀ v ∈ x.1.expr.vars, a' v = a v :=
    List.forall_mem_map.mpr fun c hc v hv => hsame v (h.named c hc v hv)
  obtain ⟨costs, hmeets, rfl⟩ := hcosts.congr hnamed
  have hlength : ∀ c ∈ cs, c.tag.vars.length = (parts c.request c.relation).length := by
    intro c hc
    have hkinds := congrArg List.length (h.upholds c hc).suits.kinds
    rwa [List.length_map, List.length_map] at hkinds
  obtain ⟨b, hother, rfl, hmakes⟩ := exists_makes h.charged.nodup hlength hmeets
  have hown : ∀ v, own v → b v = a v := by
    intro v hv
    rw [hother v fun c hc hmem => h.apart c hc v hmem hv, hsame v hv]
  have hrespects : t.Respects b := by
    intro v
    by_cases hv : ∃ c ∈ cs, v ∈ c.tag.vars
    · obtain ⟨c, hc, hmem⟩ := hv
      exact (forall₂_admits_iff (h.upholds c hc).suits.kinds b).mp (hmakes c hc).admits v hmem
    · push Not at hv
      rw [hother v hv, ha']
      dsimp only
      split
      · exact hadmits v ‹_›
      · exact Kind.admits_zero _
  refine ⟨b, h.satisfies b fun c hc => ?_, hrespects, hown, h.get_penalty b⟩
  have hexpr : c.request.expr.eval b = c.request.expr.eval a' :=
    LinExpr.eval_congr fun v hv => by
      rw [hown v (h.named c hc v hv), hsame v (h.named c hc v hv)]
  rw [Constraint.Holds, (h.upholds c hc).fit.eval_equation_parts, h.eval_expr hc hrespects, hexpr]
  exact (hmakes c hc).equation

/-- A request is **compatible** with a gathered tableau if it can be met together with those that
are there. -/
theorem Gathered.compatible (h : t.Gathered own cs) (hadmits : ∀ v, own v → (t.kind v).Admits (a v))
    (hmet : ∀ y ∈ requestsOf cs, ∃ cost, Meets a y cost) (hx : Meets a x cost)
    (hnamed : ∀ v ∈ x.1.expr.vars, own v) : t.Compatible x.1 x.2 := by
  obtain ⟨total, hcosts⟩ := exists_costs_iff.mpr hmet
  obtain ⟨b, hsat, hrespects, hown, -⟩ := h.exists_of_costs hadmits hcosts
  obtain ⟨zs, hadmits, hequation, -⟩ := hx.congr fun v hv => hown v (hnamed v hv)
  refine ⟨b, hsat, hrespects, zs, hadmits, ?_⟩
  rw [h.fold_eq hrespects]
  exact hequation

/-- The **least penalty** of a gathered tableau is at most that of another with the same requests
and the same variables of the caller. -/
theorem Gathered.atMost (h : t.Gathered own cs) (h' : t'.Gathered own cs')
    (hkind : ∀ v, own v → t'.kind v = t.kind v) (hperm : (requestsOf cs').Perm (requestsOf cs))
    {p p' : TierVector Rat} (hp : t.IsLeastPenalty p) (hp' : t'.IsLeastPenalty p') :
    p.AtMost p' := by
  obtain ⟨a, hsat, hrespects, rfl⟩ := hp'.attained
  obtain ⟨b, hsat', hrespects', -, hcost⟩ := h.exists_of_costs
    (fun v hv => hkind v hv ▸ hrespects v) ((h'.costs hsat hrespects).perm hperm)
  have hpenalty : t.penalty b = t'.penalty a := TierVector.ext_get (congrFun hcost)
  exact hpenalty ▸ hp.atMost b hsat' hrespects'

/-- Gathered tableaux with the same requests and the same variables of the caller have the same
least penalty. -/
theorem Gathered.least_eq (h : t.Gathered own cs) (h' : t'.Gathered own cs')
    (hkind : ∀ v, own v → t'.kind v = t.kind v) (hperm : (requestsOf cs').Perm (requestsOf cs))
    {p p' : TierVector Rat} (hp : t.IsLeastPenalty p) (hp' : t'.IsLeastPenalty p') : p = p' := by
  have hle := TierVector.atMost_iff.mp (h.atMost h' hkind hperm hp hp')
  have hge := TierVector.atMost_iff.mp
    (h'.atMost h (fun v hv => (hkind v hv).symm) hperm.symm hp' hp)
  exact TierVector.ext_get fun s => congrFun (byTier_injective (le_antisymm hle hge)) s

end Tableau

end LexSimplex
