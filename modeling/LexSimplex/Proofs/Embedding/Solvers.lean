import LexSimplex.Proofs.Embedding.Insertion
import LexSimplex.Proofs.Orders

/-!
# Embedded tableaux between commands

While variables are created, requests made and the goal minimised, the live variables of a tableau
have the first handles. So where one tableau is embedded in another and the larger one acts alone,
the renaming can be changed for the handles to come, and then both can act at once.

## Main definitions

* `Tableau.Hosted`: an embedded tableau and the larger one, between commands.

## Main results

* `Tableau.Hosted.exists_aligned`: the next handles can be renamed to the next handles.
* `Tableau.Hosted.declare`, `Tableau.Hosted.insert`, `Tableau.Hosted.minimise`: both act.
* `Tableau.Hosted.declare_outside`, `Tableau.Hosted.insert_outside`: the larger one acts alone.
-/

namespace LexSimplex

/-- The renaming with the handles from `n` on renamed to those from `k` on. -/
def Renaming.align (m : Renaming) (n k : Nat) (h : ∀ v : VarId, v.index < n → (m.var v).index < k) :
    Renaming where
  var v := if v.index < n then m.var v else ⟨k + (v.index - n)⟩
  row := m.row
  var_lt_iff := by
    intro v w
    have hm := m.var_lt_iff (v := v) (w := w)
    rw [VarId.lt_iff, VarId.lt_iff] at *
    by_cases hv : v.index < n
    · have hvk := h v hv
      by_cases hw : w.index < n
      · simpa only [hv, hw, if_true] using hm
      · simp only [hv, hw, if_true, if_false]
        omega
    · by_cases hw : w.index < n
      · have hwk := h w hw
        simp only [hv, hw, if_true, if_false]
        omega
      · simp only [hv, hw, if_false]
        omega
  row_injective := m.row_injective

/-- A renaming that is made to go on at two handles is aligned there. -/
theorem Renaming.aligned_align (m : Renaming) {n k : Nat}
    (h : ∀ v : VarId, v.index < n → (m.var v).index < k) : (m.align n k h).Aligned n k := by
  intro i
  have hlt : ¬n + i < n := by omega
  have hadd : n + i - n = i := by omega
  simp only [align, hlt, if_false, hadd]

namespace Tableau

variable {K Q : Type} [Coefficient K] {m m' : Renaming} {t t' u u' : Tableau K Q} {v : VarId}
  {n k : Nat}

namespace Embeds

/-- Only the new handles of live variables count. -/
theorem congr_var {out : Option RowId} (h : t.Embeds m u) (ht : t.Linked out)
    (hvar : ∀ v, t.vars.isLive v → m'.var v = m.var v) (hrow : m'.row = m.row) :
    t.Embeds m' u := by
  refine ⟨fun v x hx => ?_, fun r hr => ?_, fun v hv => ?_⟩
  · rw [hvar v (VariablePool.isLive_iff.mpr ⟨x, hx⟩), hrow]
    exact h.var v x hx
  · have hlinked := ht.row r hr
    have hexpr : r.expr.rename m'.var = r.expr.rename m.var := by
      refine congrArg (LinExpr.mk r.expr.constant) (List.map_congr_left fun term hterm => ?_)
      rw [hvar term.1 (hlinked.term term.1 (List.mem_map_of_mem hterm)).1]
    have hrename : r.rename m' = r.rename m := by
      rw [Row.rename, Row.rename, hvar r.basic hlinked.basic_isLive, hexpr, hrow]
    rw [hrename]
    exact h.row r hr
  · rw [hvar v hv]
    exact h.goal v hv

/-- Values settled in both. -/
theorem settle [Precision K Q] (h : t.Embeds m u) (ht : t.Linked none) (hu : u.Linked none) :
    t.settle.Embeds m u.settle := by
  have hget : ∀ (t : Tableau K Q) (v : VarId), t.settle.vars.get? v = (t.vars.get? v).map fun x =>
      if x.kind = .external ∧ x.pinned = false then
        { x with computed := Precision.narrow (t.rowValue x.id) }
      else x := fun t v => VariablePool.get?_map t.vars _ v
  refine ⟨fun v x hx => ?_, h.row, h.goal.mono fun v hv => ?_⟩
  · rw [hget] at hx
    obtain ⟨x₀, hx₀, rfl⟩ := Option.map_eq_some_iff.mp hx
    obtain ⟨y₀, hy₀, hmatch⟩ := h.var v x₀ hx₀
    have hvalue := h.rowValue_eq ht hu (VariablePool.isLive_iff.mpr ⟨x₀, hx₀⟩)
    have hid := (ht.var v x₀ hx₀).id_eq
    have hid' := (hu.var (m.var v) y₀ hy₀).id_eq
    refine ⟨_, by rw [hget, hy₀, Option.map_some], ?_⟩
    rw [hmatch.kind_eq, hmatch.pinned_eq, hid, hid', hvalue]
    exact hmatch.ite Iff.rfl ⟨rfl, hmatch.definition, hmatch.refs⟩
  · have hsome := congrArg Option.isSome (hget t v)
    rw [Option.isSome_map] at hsome
    exact hsome.symm.trans hv

end Embeds

/-- Settling leaves the handles in use. -/
theorem isLive_settle [Precision K Q] (t : Tableau K Q) (v : VarId) :
    t.settle.vars.isLive v ↔ t.vars.isLive v := by
  have hget : t.settle.vars.get? v = _ := VariablePool.get?_map t.vars _ v
  have hsome := congrArg Option.isSome hget
  rw [Option.isSome_map] at hsome
  exact Bool.eq_iff_iff.mp hsome

/-- A tableau is **hosted** by a larger one along a renaming if it is embedded in it, both are
well-formed, and in both the live variables have the first handles. -/
structure Hosted (m : Renaming) (t u : Tableau K Q) : Prop where
  embeds : t.Embeds m u
  wellFormed : t.WellFormed
  wellFormed_host : u.WellFormed
  filled : ∃ n, t.Filled n
  filled_host : ∃ k, u.Filled k

omit [Coefficient K] in
/-- Along an aligned renaming, what lies outside stays outside: the handles to come are renamed to
handles to come. -/
theorem not_inside_of_aligned (hn : t.Filled n) (hk : u.Filled k) (hm : m.Aligned n k)
    (hv : u.vars.isLive v) (hout : ¬Inside m t v) (t' : Tableau K Q) : ¬Inside m t' v := by
  rintro ⟨w, -, rfl⟩
  by_cases hw : w.index < n
  · exact hout ⟨w, (hn w).mpr hw, rfl⟩
  · have hindex : w = ⟨n + (w.index - n)⟩ := VarId.eq_of_index_eq (by simp only; omega)
    rw [hindex, hm, hk] at hv
    simp only at hv
    omega

namespace Hosted

/-- The next handles can be renamed to the next handles. -/
theorem exists_aligned (h : Hosted m t u) : ∃ m' n k, Hosted m' t u ∧ t.Filled n ∧ u.Filled k ∧
    m'.Aligned n k ∧ ∀ v, t.vars.isLive v → m'.var v = m.var v := by
  obtain ⟨n, hn⟩ := h.filled
  obtain ⟨k, hk⟩ := h.filled_host
  have hlt : ∀ v : VarId, v.index < n → (m.var v).index < k := fun v hv =>
    (hk _).mp (h.embeds.isLive_of_inside ⟨v, (hn v).mpr hv, rfl⟩)
  have hvar : ∀ v, t.vars.isLive v → (m.align n k hlt).var v = m.var v := fun v hv =>
    if_pos ((hn v).mp hv)
  exact ⟨m.align n k hlt, n, k, ⟨h.embeds.congr_var h.wellFormed.linked hvar rfl, h.wellFormed,
    h.wellFormed_host, ⟨n, hn⟩, k, hk⟩, hn, hk, m.aligned_align hlt, hvar⟩

section Declare

variable [Scalar Q]

/-- A variable that both solvers declare gets matching handles. -/
theorem declare (h : Hosted m t u) (hn : t.Filled n) (hk : u.Filled k) (hm : m.Aligned n k)
    (kind : Kind) (stem stem' : Option String) :
    (u.addVariable kind stem').1 = m.var (t.addVariable kind stem).1 ∧
      Hosted m (t.addVariable kind stem).2 (u.addVariable kind stem').2 := by
  obtain ⟨hfirst, hfill⟩ := hn.addVariable kind stem
  obtain ⟨hfirst', hfill'⟩ := hk.addVariable kind stem'
  have hv : (u.addVariable kind stem').1 = m.var (t.addVariable kind stem).1 := by
    rw [hfirst, hfirst', hm.var_eq]
  exact ⟨hv, h.embeds.addVariable h.wellFormed.linked h.wellFormed_host.linked kind stem stem' hv,
    h.wellFormed.addVariable kind stem, h.wellFormed_host.addVariable kind stem', ⟨_, hfill⟩, _,
    hfill'⟩

/-- A variable that only the large solver declares is none of the small one's. -/
theorem declare_outside (h : Hosted m t u) (kind : Kind) (stem : Option String) :
    ¬Inside m t (u.addVariable kind stem).1 ∧ Hosted m t (u.addVariable kind stem).2 := by
  obtain ⟨k, hk⟩ := h.filled_host
  obtain ⟨hout, hembeds⟩ := h.embeds.addVariable_outside kind stem
  exact ⟨hout, hembeds, h.wellFormed, h.wellFormed_host.addVariable kind stem, h.filled, _,
    (hk.addVariable kind stem).2⟩

end Declare

variable [Precision K Q]

/-- Minimisations that succeed, with the values settled after them. -/
theorem minimise (h : Hosted m t u) (f g : Counters → Counters)
    (hok : ((t.count f).minimise .goal).1 = .ok ())
    (hok' : ((u.count g).minimise .goal).1 = .ok ()) :
    Hosted m ((t.count f).minimise .goal).2.settle ((u.count g).minimise .goal).2.settle := by
  have hwell := h.wellFormed.count f
  have hwell' := h.wellFormed_host.count g
  have hfill : ∀ {t : Tableau K Q} {n} (f : Counters → Counters), t.Linked none → t.Filled n →
      ((t.count f).minimise .goal).2.settle.Filled n := fun f ht hn =>
    ((hn.of_sameVars (SameVars.count f)).of_sameVars
      ((ht.count f).sameVars_minimise .goal)).of_isLive (isLive_settle _)
  obtain ⟨n, hn⟩ := h.filled
  obtain ⟨k, hk⟩ := h.filled_host
  have hleast := (h.embeds.count f g).minimise_goal hwell.linked hwell'.linked hok hok'
  exact ⟨hleast.settle (hwell.minimise .goal).linked (hwell'.minimise .goal).linked,
    (hwell.minimise .goal).settle, (hwell'.minimise .goal).settle,
    ⟨n, hfill f h.wellFormed.linked hn⟩, k, hfill g h.wellFormed_host.linked hk⟩

variable [Scalar Q] {request : Request K} {relation : Relation}

/-- A request of the hosted tableau is accepted in both or refused in both. -/
theorem insert (h : Hosted m t u) (hn : t.Filled n) (hk : u.Filled k) (hm : m.Aligned n k)
    (hlive : ∀ v ∈ request.expr.vars, t.vars.isLive v)
    (hsettled : Settled (t.insert request relation).1)
    (hsettled' : Settled (u.insert (request.rename m.var) relation).1) :
    (u.insert (request.rename m.var) relation).1.toBool = (t.insert request relation).1.toBool ∧
      ∃ m', m'.var = m.var ∧
        Hosted m' (t.insert request relation).2 (u.insert (request.rename m.var) relation).2 := by
  have hlinked := h.wellFormed.linked
  have hlinked' := h.wellFormed_host.linked
  obtain ⟨hverdict, m', hvar, hembeds⟩ :=
    h.embeds.insert hlinked hlinked' hn hk hm hlive hsettled hsettled'
  exact ⟨hverdict, m', hvar, hembeds, (h.wellFormed.insert request relation).1,
    (h.wellFormed_host.insert _ relation).1, ⟨_, hn.insert hlinked hsettled⟩, _,
    hk.insert hlinked' hsettled'⟩

/-- A request that speaks of no variable of the small solver leaves that in the large one, if it is
settled. -/
theorem insert_outside (h : Hosted m t u) (hout : ∀ v ∈ request.expr.vars, ¬Inside m t v)
    (hsettled : Settled (u.insert request relation).1) :
    Hosted m t (u.insert request relation).2 := by
  obtain ⟨k, hk⟩ := h.filled_host
  have hlinked := h.wellFormed_host.linked
  exact ⟨h.embeds.insert_outside h.wellFormed.linked hlinked hout, h.wellFormed,
    (h.wellFormed_host.insert request relation).1, h.filled, _, hk.insert hlinked hsettled⟩

end Hosted

end Tableau

end LexSimplex
