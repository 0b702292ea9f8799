import Mathlib.Algebra.Ring.Rat
import LexSimplex.Proofs.Edits
import LexSimplex.Proofs.Penalties
import LexSimplex.Proofs.RowTally

/-!
# Who is charged

The penalty is charged for error variables one by one. This module attributes it to constraints: the
own variables of a constraint are priced as its parts say, and nobody else has a priced variable. So
the penalty of an assignment is what its values cost each constraint.

A request leaves priced variables behind where pivoting fails during its insertion: these belong to
no constraint, and the goal still charges for them. A position that a solver asks for of its own
accord is hard and has no priced part, so it does no harm.

## Main definitions

* `Settled`: an outcome that does not say that pivoting failed.
* `Part.price`: what the variable of a part costs.
* `Tableau.Attributed`: every price is that of a constraint that is there.
* `Constraint.charge`: what an assignment costs a constraint.
* `Tableau.Charged`: every price is that of a constraint in a list.

## Main results

* `Tableau.Attributed.insert`, `Tableau.Attributed.withdraw`: insertions and removals keep prices
  attributed.
* `Solver.attributed_perform`: so do commands, unless pivoting fails in an insertion.
* `Tableau.Charged.get_penalty_eq`: the penalty is what all constraints of the list are charged.
* `Tableau.Attributed.charged`: until handles come round the constraints that are there are such a
  list.
-/

namespace LexSimplex

/-- An outcome is **settled** unless it says that pivoting failed. -/
def Settled {α : Type} (outcome : Except Fault α) : Prop :=
  ∀ fault, outcome = .error fault → ¬fault.isInternal

instance {α : Type} (outcome : Except Fault α) : Decidable (Settled outcome) :=
  match outcome with
  | .ok _ => .isTrue fun _ h => absurd h (by simp)
  | .error fault => decidable_of_iff (¬fault.isInternal)
      ⟨fun h _ heq => Except.error.inj heq ▸ h, fun h => h fault rfl⟩

/-- An outcome is settled if what it is mapped to is. -/
theorem Settled.of_map {α β : Type} {f : α → β} {outcome : Except Fault α}
    (h : Settled (outcome.map f)) : Settled outcome := by
  intro fault hfault
  refine h fault ?_
  rw [hfault]
  rfl

/-- The price of the variable of a part. -/
def Part.price {K : Type} [Coefficient K] : Part K → TierVector K
  | .error s _ => TierVector.unit s
  | .slack _ | .marker _ => TierVector.zero

namespace Tableau

variable {t u : Tableau Rat Rat} {request : Request Rat} {relation : Relation} {id : ConstraintId}
  {c : Constraint Rat} {v : VarId}

/-! ### The prices of a draft -/

/-- The variable of a part has the price of the part. -/
theorem price_makePart (t : Tableau Rat Rat) (p : Part Rat) (w : VarId) :
    (t.makePart p).2.price w = if w = (t.makePart p).1 then p.price else t.price w := by
  have hdead : t.price (t.makePart p).1 = TierVector.zero := by
    rw [price, t.get?_makePart_fst]
    rfl
  cases p with
  | slack c =>
      refine (price_addVariable t .slack none w).trans ?_
      split
      · rename_i hw
        exact hw ▸ hdead
      · rfl
  | marker c =>
      refine (price_addVariable t .constant none w).trans ?_
      split
      · rename_i hw
        exact hw ▸ hdead
      · rfl
  | error s c => exact t.price_addError s w

/-- The variables of joined parts have the prices of the parts. -/
theorem map_price_joinParts (t : Tableau Rat Rat) (e : LinExpr Rat) (ps : List (Part Rat)) :
    (t.joinParts e ps).2.1.map (t.joinParts e ps).2.2.price = ps.map Part.price := by
  induction ps generalizing t e with
  | nil => rfl
  | cons p ps ih =>
      have hjoined := (t.makePart p).2.joined_joinParts
        (e.setTerm (t.makePart p).1 p.coefficient) ps
      have hnodup := (t.joined_joinParts e (p :: ps)).nodup
      rw [joinParts_cons] at hnodup ⊢
      have hfirst : ((t.makePart p).2.joinParts (e.setTerm (t.makePart p).1 p.coefficient)
          ps).2.2.price (t.makePart p).1 = p.price := by
        rw [price, hjoined.old _ (List.nodup_cons.mp hnodup).1]
        exact (price_makePart t p _).trans (if_pos rfl)
      rw [List.map_cons, List.map_cons, ih, hfirst]

/-- The variables made for a request have the prices of its parts, and the others keep theirs. -/
theorem Linked.price_draft (h : t.Linked none) (request : Request Rat) (relation : Relation) :
    (t.made request relation).map (t.draft request relation).2.price =
        (parts request relation).map Part.price ∧
      ∀ v, v ∉ t.made request relation → (t.draft request relation).2.price v = t.price v := by
  refine ⟨?_, fun v hv => ?_⟩
  · obtain ⟨tag, hdraft, hvars, -⟩ := t.draft_eq request relation
    rw [made, hdraft]
    rw [hvars]
    exact map_price_joinParts _ _ _
  · rw [price, price, (h.draft request relation).joined.old v hv]

/-! ### The prices after an insertion -/

/-- Changes of variables that are not of their prices leave these. -/
theorem price_foldl_modifyVar (t : Tableau Rat Rat) {f : Variable Rat → Variable Rat}
    (hf : ∀ x, ((f x).price : TierVector Rat) = x.price) (vs : List VarId) (w : VarId) :
    (vs.foldl (fun t v => t.modifyVar v f) t).price w = t.price w := by
  induction vs generalizing t with
  | nil => rfl
  | cons v vs ih => exact (ih _).trans (price_modifyVar t v hf w)

/-- Entering a constraint leaves the prices. -/
theorem price_register (t : Tableau Rat Rat) (c : Constraint Rat) (v : VarId) :
    (t.register c).2.price v = t.price v := by
  have hfold := t.price_foldl_modifyVar (f := Variable.retainFold) (fun _ => rfl) c.tag.folded v
  exact (price_of_vars_eq (vars_count _ _) v).trans hfold

/-- An accepted request has the prices of its draft. -/
theorem Linked.price_insert_ok (h : t.Linked none) (hok : (t.insert request relation).1 = .ok id)
    (v : VarId) : (t.insert request relation).2.price v = (t.draft request relation).2.price v := by
  have hplaced := (Linked.place ((h.draft request relation).placeable h)).2.price_eq v
  revert hok
  refine insert_cases (p := fun result => result.1 = .ok id →
    result.2.price v = (t.draft request relation).2.price v) ?_ ?_ ?_ ?_
  · exact fun _ _ _ hok => absurd hok (by simp)
  · exact fun _ _ _ hok => absurd hok (by simp)
  · exact fun _ _ _ => (price_register _ _ v).trans hplaced
  · exact fun _ _ _ _ hok => absurd hok (by simp)

/-- A request that fails leaves the prices, but for those of its own variables where pivoting
failed. -/
theorem Linked.price_insert_error (h : t.Linked none) {fault : Fault}
    (hfault : (t.insert request relation).1 = .error fault) (v : VarId) :
    (t.insert request relation).2.price v =
      if v ∈ t.made request relation ∧ fault.isInternal then
        (t.draft request relation).2.price v
      else t.price v := by
  have hcore := h.core_failed (h.failed hfault) v
  have hprice : ∀ (u w : Tableau Rat Rat), (u.vars.get? v).map Variable.core =
      (w.vars.get? v).map Variable.core → u.price v = w.price v := by
    intro u w huw
    have hmap := congrArg (Option.map (Variable.price (K := Rat))) huw
    rw [Option.map_map, Option.map_map] at hmap
    exact congrArg (·.getD TierVector.zero) hmap
  split at hcore
  · rw [if_pos ‹_›]
    exact hprice _ _ hcore
  · rw [if_neg ‹_›]
    exact hprice _ _ hcore

/-- An accepted request gives its own variables the prices of its parts, and the others keep
theirs. -/
theorem Linked.prices_insert_ok (h : t.Linked none)
    (hok : (t.insert request relation).1 = .ok id) :
    (t.made request relation).map (t.insert request relation).2.price =
        (parts request relation).map Part.price ∧
      ∀ v, v ∉ t.made request relation →
        (t.insert request relation).2.price v = t.price v := by
  rw [funext (h.price_insert_ok hok)]
  exact h.price_draft request relation

/-- A request that fails leaves all prices, unless pivoting failed and it has priced parts: then it
leaves its own variables behind, which had no price before. -/
theorem Linked.price_insert_of_harmless (h : t.Linked none) {fault : Fault}
    (hfault : (t.insert request relation).1 = .error fault)
    (hharmless : Settled (t.insert request relation).1 ∨
      ∀ p ∈ parts request relation, p.price = TierVector.zero) (v : VarId) :
    (t.insert request relation).2.price v = t.price v := by
  obtain ⟨hmade, -⟩ := h.price_draft request relation
  rw [h.price_insert_error hfault]
  split
  · rename_i hv
    rcases hharmless with hsound | hcheap
    · exact absurd hv.2 (hsound fault hfault)
    · have hfree : t.price v = TierVector.zero :=
        price_of_not_isLive fun hl => (h.draft request relation).joined.notMem_of_isLive hl hv.1
      have hmem : (t.draft request relation).2.price v ∈
          (parts request relation).map Part.price := hmade ▸ List.mem_map_of_mem hv.1
      obtain ⟨p, hp, hprice⟩ := List.mem_map.mp hmem
      rw [hfree, ← hprice, hcheap p hp]
  · rfl

/-! ### Prices that are attributed -/

/-- The prices of a tableau are **attributed** if the own variables of each constraint have the
prices of its parts, and no other variable has a price as long as handles have not come round. Once
they have, the variables of a constraint that was overwritten are still priced. -/
structure Attributed (t : Tableau Rat Rat) : Prop where
  wellFormed : t.WellFormed
  prices : ∀ id c, t.constraints.get? id = some c →
    c.tag.vars.map t.price = (parts c.request c.relation).map Part.price
  owner : t.Unwrapped → ∀ v, t.price v ≠ TierVector.zero →
    ∃ id c, t.constraints.get? id = some c ∧ v ∈ c.tag.vars

/-- With the same constraints and prices, prices stay attributed. -/
theorem Attributed.of_price_eq (h : t.Attributed) (hwell : u.WellFormed)
    (hcons : u.constraints = t.constraints) (hnext : u.entered = t.entered)
    (hprice : ∀ v, u.price v = t.price v) : u.Attributed := by
  refine ⟨hwell, ?_, ?_⟩
  · rw [hcons, funext hprice]
    exact h.prices
  · rw [hcons, funext hprice, Unwrapped, hnext]
    exact h.owner

/-- An **insertion** keeps prices attributed, unless pivoting fails in it and the request has priced
parts. -/
theorem Attributed.insert (h : t.Attributed)
    (hharmless : Settled (t.insert request relation).1 ∨
      ∀ p ∈ parts request relation, p.price = TierVector.zero) :
    (t.insert request relation).2.Attributed := by
  have hlinked := h.wellFormed.linked
  have howned := h.wellFormed.owned
  have hdrafted := hlinked.draft request relation
  obtain ⟨hentered, hkept⟩ := hlinked.constraints_insert request relation
  obtain ⟨hwell, -⟩ := h.wellFormed.insert request relation
  cases hresult : (t.insert request relation).1 with
  | error fault =>
      exact h.of_price_eq hwell (hkept fault hresult)
        ((hlinked.entered_insert request relation).2 fault hresult)
        (hlinked.price_insert_of_harmless hresult hharmless)
  | ok id =>
      obtain ⟨rfl, -, hcons⟩ := hentered id hresult
      obtain ⟨hmade, hold⟩ := hlinked.prices_insert_ok hresult
      refine ⟨hwell, ?_, fun hroom v hv => ?_⟩
      · rw [hcons]
        refine Assoc.forall_get?_insert_of_forall ?_ fun id' c' hc' => ?_
        · rw [hdrafted.request_eq, hdrafted.relation_eq]
          exact hmade
        · rw [← h.prices id' c' hc']
          exact List.map_congr_left fun v hv =>
            hold v (hdrafted.joined.notMem_of_isLive (howned.isLive id' c' hc' v hv))
      · have hbefore := hlinked.unwrapped_of_insert hroom
        by_cases hmem : v ∈ t.made request relation
        · exact ⟨_, _, by rw [hcons, Assoc.get?_insert, if_pos rfl], hmem⟩
        · rw [hold v hmem] at hv
          obtain ⟨id', c', hc', hmem'⟩ := h.owner hbefore v hv
          refine ⟨id', c', ?_, hmem'⟩
          rw [hcons, Assoc.get?_insert, if_neg, hc']
          rintro rfl
          exact absurd ((h.wellFormed.get?_nextConstraint hbefore).symm.trans hc') (by simp)

/-- Discarded variables have no price, and the others keep theirs. -/
theorem Linked.price_foldl_discard_eq (h : t.Linked none) (vs : List VarId) (v : VarId) :
    (vs.foldl Tableau.discard t).price v = if v ∈ vs then TierVector.zero else t.price v := by
  induction vs generalizing t with
  | nil => rw [if_neg List.not_mem_nil]; rfl
  | cons w vs ih =>
      rw [List.foldl_cons, ih (h.discard w), h.price_discard]
      by_cases hvs : v ∈ vs
      · rw [if_pos hvs, if_pos (List.mem_cons_of_mem w hvs)]
      · by_cases hw : v = w
        · rw [if_neg hvs, if_pos hw, if_pos (List.mem_cons.mpr (.inl hw))]
        · rw [if_neg hvs, if_neg hw, if_neg fun hmem => (List.mem_cons.mp hmem).elim hw hvs]

/-- The prices of a tableau in which a constraint is no longer listed are those it had. -/
theorem price_unlisted (t : Tableau Rat Rat) (id : ConstraintId) (tag : Tag) (v : VarId) :
    (t.unlisted id tag).price v = t.price v := by
  have hfold := price_foldl_modifyVar { t with constraints := t.constraints.erase id }
    (f := Variable.releaseFold) (fun _ => rfl) tag.folded v
  obtain ⟨g, hg⟩ := foldl_unpenalise tag.vars (tag.folded.foldl
    (fun t v => t.modifyVar v Variable.releaseFold)
    { t with constraints := t.constraints.erase id })
  rw [Tableau.unlisted, hg]
  exact (price_of_vars_eq rfl v).trans hfold

/-- The prices after a removal: those of the constraint are gone. -/
theorem Linked.price_withdraw (h : t.Linked none) (id : ConstraintId) (tag : Tag) (v : VarId) :
    (t.withdraw id tag).price v = if v ∈ tag.vars then TierVector.zero else t.price v := by
  obtain ⟨hremoved, hsame⟩ := (h.unlisted id tag).removeEquation tag.marker
  rw [withdraw_eq, hremoved.price_foldl_discard_eq, hsame.price_eq, price_unlisted]

/-- A **removal** keeps prices attributed. -/
theorem Attributed.withdraw (h : t.Attributed) (hc : t.constraints.get? id = some c) :
    (t.withdraw id c.tag).Attributed := by
  have howned := h.wellFormed.owned
  have hprice := h.wellFormed.linked.price_withdraw id c.tag
  refine ⟨(h.wellFormed.withdraw hc).1, ?_, fun hroom v hv => ?_⟩
  · rw [constraints_withdraw, Assoc.forall_get?_erase]
    refine fun id' c' hid hc' => ?_
    rw [← h.prices id' c' hc']
    refine List.map_congr_left fun v hv => (hprice v).trans (if_neg fun hmem => hid ?_)
    exact howned.disjoint id' c' id c hc' hc v hv hmem
  · rw [hprice] at hv
    split at hv
    · exact absurd rfl hv
    · rename_i hmem
      have hbefore : t.Unwrapped := hroom.of_le (Nat.le_of_eq (entered_withdraw t id c.tag).symm)
      obtain ⟨id', c', hc', hmem'⟩ := h.owner hbefore v hv
      refine ⟨id', c', ?_, hmem'⟩
      rw [constraints_withdraw, Assoc.get?_erase, if_neg, hc']
      rintro rfl
      exact hmem (Option.some.inj (hc.symm.trans hc') ▸ hmem')

/-! ### What each constraint is charged -/

/-- What is summed over the slots of a pool may be summed over the variables where it is not
zero. -/
theorem sum_range_eq {f : VarId → Rat} {vs : List VarId} {n : Nat} (hnodup : vs.Nodup)
    (hlt : ∀ v ∈ vs, v.index < n) (hzero : ∀ v, v ∉ vs → f v = 0) :
    ∑ i ∈ Finset.range n, f ⟨i⟩ = (vs.map f).sum := by
  have hinjective : Set.InjOn VarId.mk (Finset.range n : Set Nat) :=
    fun i _ j _ hij => congrArg VarId.index hij
  rw [← List.sum_toFinset f hnodup, ← Finset.sum_image (f := f) hinjective]
  refine (Finset.sum_subset (fun v hv => ?_) fun v _ hv => ?_).symm
  · exact Finset.mem_image.mpr
      ⟨v.index, Finset.mem_range.mpr (hlt v (List.mem_toFinset.mp hv)), rfl⟩
  · exact hzero v fun hmem => hv (List.mem_toFinset.mpr hmem)

end Tableau

/-- What an assignment **charges** a constraint at a tier: the values of its own variables at the
prices of its parts. -/
def Constraint.charge (c : Constraint Rat) (s : Strength) (a : Assignment) : Rat :=
  (List.zipWith (fun p v => (Part.price p).get s * a v) (parts c.request c.relation)
    c.tag.vars).sum

/-- What a constraint is charged depends on its own variables alone. -/
theorem Constraint.charge_congr (c : Constraint Rat) (s : Strength) {a b : Assignment}
    (h : ∀ v ∈ c.tag.vars, a v = b v) : c.charge s a = c.charge s b := by
  rw [charge, charge]
  refine congrArg List.sum ?_
  generalize c.tag.vars = vs at h
  generalize parts c.request c.relation = ps
  induction vs generalizing ps with
  | nil => rw [List.zipWith_nil_right, List.zipWith_nil_right]
  | cons v vs ih =>
      cases ps with
      | nil => rfl
      | cons p ps =>
          rw [List.zipWith_cons_cons, List.zipWith_cons_cons, h v List.mem_cons_self,
            ih (fun w hw => h w (List.mem_cons_of_mem v hw))]

namespace Tableau

variable {t u : Tableau Rat Rat} {request : Request Rat} {relation : Relation} {id : ConstraintId}
  {c : Constraint Rat} {cs : List (Constraint Rat)}

/-- The prices of a tableau are **charged** to the constraints of a list if these have live
variables of their own with the prices of their parts, and no other variable has a price. -/
structure Charged (t : Tableau Rat Rat) (cs : List (Constraint Rat)) : Prop where
  isLive : ∀ c ∈ cs, ∀ v ∈ c.tag.vars, t.vars.isLive v
  nodup : (cs.flatMap fun c => c.tag.vars).Nodup
  prices : ∀ c ∈ cs, c.tag.vars.map t.price = (parts c.request c.relation).map Part.price
  owner : ∀ v, t.price v ≠ TierVector.zero → ∃ c ∈ cs, v ∈ c.tag.vars

/-- A constraint is charged for its own variables at their prices. -/
theorem Charged.charge_eq (h : t.Charged cs) (hc : c ∈ cs) (s : Strength) (a : Assignment) :
    c.charge s a = (c.tag.vars.map fun v => (t.price v).get s * a v).sum := by
  have hzip : ∀ vs : List VarId, (vs.map fun v => (t.price v).get s * a v) =
      List.zipWith (fun p v => p.get s * a v) (vs.map t.price) vs := by
    intro vs
    rw [List.zipWith_map_left, List.zipWith_self]
  rw [hzip, h.prices c hc, List.zipWith_map_left, Constraint.charge]

/-- **The penalty is what all constraints are charged.** -/
theorem Charged.get_penalty_eq (h : t.Charged cs) (a : Assignment) (s : Strength) :
    (t.penalty a).get s = (cs.map fun c => c.charge s a).sum := by
  have hlt : ∀ v ∈ cs.flatMap fun c => c.tag.vars, v.index < t.highWater := by
    intro v hv
    obtain ⟨c, hc, hvc⟩ := List.mem_flatMap.mp hv
    exact VariablePool.lt_highWater_of_isLive (h.isLive c hc v hvc)
  have hzero : ∀ v, v ∉ (cs.flatMap fun c => c.tag.vars) → (t.price v).get s * a v = 0 := by
    intro v hv
    have hprice : t.price v = TierVector.zero := by
      by_contra hne
      exact hv (List.mem_flatMap.mpr (h.owner v hne))
    rw [hprice, TierVector.get_zero, zero_mul]
  rw [penalty, TierVector.get_ofFn]
  refine (sum_range_eq h.nodup hlt hzero).trans ?_
  rw [List.map_flatMap, List.flatMap_def, List.sum_flatten, List.map_map]
  exact congrArg List.sum (List.map_congr_left fun c hc => (h.charge_eq hc s a).symm)

/-- As long as handles have not come round, the constraints that are there are charged. -/
theorem Attributed.charged (h : t.Attributed) (hlisted : t.Listed) (hroom : t.Unwrapped) :
    t.Charged (t.constraints.map Prod.snd) := by
  have hget : ∀ x ∈ t.constraints, t.constraints.get? x.1 = some x.2 :=
    fun x hx => (Assoc.get?_eq_some_iff hlisted.nodup).mpr hx
  have howned := h.wellFormed.owned
  refine ⟨?_, ?_, ?_, fun v hv => ?_⟩
  · exact List.forall_mem_map.mpr fun x hx => howned.isLive x.1 x.2 (hget x hx)
  · have hkeys : t.constraints.Pairwise fun x y => x.1 ≠ y.1 := List.pairwise_map.mp hlisted.nodup
    rw [List.flatMap_map]
    refine List.nodup_flatMap.mpr ⟨fun x hx => howned.nodup x.1 x.2 (hget x hx), ?_⟩
    refine hkeys.imp_of_mem fun {x y} hx hy hne v hvx hvy => hne ?_
    exact howned.disjoint x.1 x.2 y.1 y.2 (hget x hx) (hget y hy) v hvx hvy
  · exact List.forall_mem_map.mpr fun x hx => h.prices x.1 x.2 (hget x hx)
  · obtain ⟨id, c, hc, hmem⟩ := h.owner hroom v hv
    have hlist : (id, c) ∈ t.constraints := (Assoc.get?_eq_some_iff hlisted.nodup).mp hc
    exact ⟨c, List.mem_map_of_mem hlist, hmem⟩

/-- With the same prices and the variables kept, the same constraints are charged. -/
theorem Charged.of_price_eq (h : t.Charged cs) (hprice : ∀ v, u.price v = t.price v)
    (hkeep : ∀ v, t.vars.isLive v → u.vars.isLive v) : u.Charged cs := by
  refine ⟨fun c hc v hv => hkeep v (h.isLive c hc v hv), h.nodup, ?_, ?_⟩
  · rw [funext hprice]
    exact h.prices
  · rw [funext hprice]
    exact h.owner

/-- The constraint of an accepted request is charged beside the others, whether or not its handle
was in use. -/
theorem Charged.insert (h : t.Charged cs) (hwell : t.WellFormed)
    (hok : (t.insert request relation).1 = .ok id) :
    (t.insert request relation).2.Charged (cs ++ [(t.draft request relation).1.constraint]) := by
  have hdrafted := hwell.linked.draft request relation
  obtain ⟨hwell', hkeeps⟩ := hwell.insert request relation
  obtain ⟨-, -, hcons⟩ := (hwell.linked.constraints_insert request relation).1 id hok
  obtain ⟨hmade, hold⟩ := hwell.linked.prices_insert_ok hok
  have hnew : ∀ c ∈ cs, ∀ v ∈ c.tag.vars, v ∉ t.made request relation := fun c hc v hv =>
    hdrafted.joined.notMem_of_isLive (h.isLive c hc v hv)
  have hget : (t.insert request relation).2.constraints.get? id =
      some (t.draft request relation).1.constraint := by
    rw [hcons, Assoc.get?_insert, if_pos rfl]
  refine ⟨?_, ?_, ?_, fun v hv => ?_⟩
  · refine List.forall_mem_append.mpr ⟨fun c hc v hv => ?_, List.forall_mem_singleton.mpr ?_⟩
    · exact hkeeps.isLive List.not_mem_nil (h.isLive c hc v hv)
    · exact hwell'.owned.isLive id _ hget
  · rw [List.flatMap_append, List.flatMap_singleton]
    refine List.nodup_append'.mpr ⟨h.nodup, hdrafted.joined.nodup, fun v hv hmem => ?_⟩
    obtain ⟨c, hc, hvc⟩ := List.mem_flatMap.mp hv
    exact hnew c hc v hvc hmem
  · refine List.forall_mem_append.mpr ⟨fun c hc => ?_, List.forall_mem_singleton.mpr ?_⟩
    · rw [← h.prices c hc]
      exact List.map_congr_left fun v hv => hold v (hnew c hc v hv)
    · rw [hdrafted.request_eq, hdrafted.relation_eq]
      exact hmade
  · by_cases hmem : v ∈ t.made request relation
    · exact ⟨_, List.mem_append_right cs List.mem_cons_self, hmem⟩
    · rw [hold v hmem] at hv
      obtain ⟨c, hc, hvc⟩ := h.owner v hv
      exact ⟨c, List.mem_append_left _ hc, hvc⟩

/-! ### Operations -/

/-- A position has no priced part. -/
theorem price_of_positions (hasked : Solver.Positions Rat request relation) :
    ∀ p ∈ parts request relation, p.price = TierVector.zero := by
  obtain ⟨v, x, rfl, rfl⟩ := hasked
  intro p hp
  obtain rfl : p = .marker 1 := List.mem_singleton.mp hp
  rfl

/-- Removals, flags and positions keep prices attributed. -/
theorem Attributed.leads (h : t.Attributed) (hu : t.Leads (Solver.Positions Rat) u) :
    u.Attributed := by
  induction hu with
  | refl => exact h
  | insert _ hasked ih => exact ih.insert (.inr (price_of_positions hasked))
  | remove _ id ih =>
      exact remove_cases (p := fun result => result.2.Attributed) (fun _ => ih)
        fun _ hc => ih.withdraw hc
  | pin _ v x ih =>
      exact ih.of_price_eq (ih.wellFormed.modifyVar v (f := (·.pin x)) fun _ => rfl) rfl rfl
        (price_modifyVar _ v fun _ => rfl)
  | unpin _ v ih =>
      exact ih.of_price_eq (ih.wellFormed.modifyVar v (f := Variable.unpin) fun _ => rfl) rfl rfl
        (price_modifyVar _ v fun _ => rfl)
  | count _ f ih =>
      exact ih.of_price_eq (ih.wellFormed.count f) (constraints_count _ f) (entered_count _ f)
        (price_of_vars_eq (vars_count _ f))

/-- A tableau without variables and constraints has no prices. -/
theorem Attributed.of_nothing (hwell : t.WellFormed) (hvars : ∀ v, t.vars.get? v = none)
    (hcons : t.constraints = []) : t.Attributed := by
  refine ⟨hwell, fun id c hc => ?_, fun _ v hv => absurd ?_ hv⟩
  · rw [hcons] at hc
    exact absurd hc (by simp)
  · rw [price, hvars]
    rfl

end Tableau

namespace Solver

variable {s : Solver Rat Rat}

/-- Prices stay attributed, whatever a solver does of its own accord. -/
theorem durable_attributed : Durable Tableau.Attributed := by
  refine ⟨fun t u hu h => h.leads hu, fun t kind stem h => ?_, fun t h => ?_, fun t h => ?_,
    fun t h => ?_, fun t h => ?_⟩
  · exact h.of_price_eq (h.wellFormed.addVariable kind stem)
      (Tableau.constraints_addVariable t kind stem)
      (Tableau.entered_addVariable t kind stem) (Tableau.price_addVariable t kind stem)
  · exact h.of_price_eq (h.wellFormed.minimise .goal) (Tableau.constraints_minimise .goal t)
      (Tableau.entered_minimise .goal t)
      (h.wellFormed.linked.sameVars_minimise .goal).price_eq
  · refine h.of_price_eq h.wellFormed.settle rfl rfl fun v => ?_
    rw [Tableau.price, Tableau.price, Tableau.map_settle t v fun _ _ => rfl]
  · have hvars := VariablePool.get?_reset t.vars
    exact .of_nothing (.of_nothing rfl rfl rfl hvars (Pool.get?_reset t.rowSlots)) hvars rfl
  · exact h.of_price_eq (h.wellFormed.of_links rfl rfl rfl rfl rfl (fun _ => rfl) (Nat.le_refl _))
      rfl rfl fun _ => rfl

/-- A **command** keeps prices attributed, unless pivoting fails in the insertion of the request
that it makes. -/
theorem attributed_perform (h : s.tableau.Attributed) (c : Command Rat Rat)
    (hsettled : c.request?.isSome → Settled (s.perform c).1) :
    (s.perform c).2.tableau.Attributed := by
  refine durable_attributed.perform h c fun request relation hc hreply => ?_
  have hinsert := hsettled (by rw [hc]; rfl)
  rw [hreply] at hinsert
  exact h.insert (.inl hinsert.of_map)

end Solver

end LexSimplex
