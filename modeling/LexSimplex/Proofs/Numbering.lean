import LexSimplex.Proofs.Attribution
import LexSimplex.Proofs.Refusals

/-!
# The handles in use

As long as nothing is removed and pivoting does not fail, the live variables have the first
handles. A new variable gets the next one; the variables of a request that is accepted follow one
another, and those of a request that is refused are free again. So the handles that a run gives out
depend on the kinds of its requests and on which were accepted.

## Main definitions

* `Tableau.Filled`: the live variables have the first handles.

## Main results

* `Tableau.Filled.addVariable`: a new variable gets the next handle.
* `Tableau.Filled.insert`: an insertion uses a handle for each variable that it keeps.
-/

namespace LexSimplex

namespace Tableau

variable {K Q : Type} {t t' : Tableau K Q} {n : Nat}

/-- The live variables are those with the first `n` handles. -/
def Filled (t : Tableau K Q) (n : Nat) : Prop :=
  ∀ v, t.vars.isLive v ↔ v.index < n

/-- Whether the first slots are filled depends on what is live. -/
theorem Filled.of_isLive (h : t.Filled n) (hlive : ∀ v, t'.vars.isLive v ↔ t.vars.isLive v) :
    t'.Filled n :=
  fun v => (hlive v).trans (h v)

/-- Where the variables are the same, the same slots are filled. -/
theorem Filled.of_sameVars (h : t.Filled n) (hsame : t.SameVars t') : t'.Filled n :=
  h.of_isLive hsame.isLive_iff

/-- A variable changed once for each time that it is listed. -/
theorem get?_foldl_modifyVar (f : Variable Q → Variable Q) (ws : List VarId) (t : Tableau K Q)
    (v : VarId) : (ws.foldl (fun t w => t.modifyVar w f) t).vars.get? v =
      (t.vars.get? v).map (f^[ws.count v]) := by
  induction ws generalizing t with
  | nil => simp
  | cons w ws ih =>
    have hmodify : (t.modifyVar w f).vars.get? v = _ := VariablePool.get?_modify t.vars w f v
    rw [List.foldl_cons, ih, hmodify]
    by_cases hv : v = w
    · subst hv
      rw [if_pos rfl, Option.map_map, List.count_cons_self, Function.iterate_succ]
    · rw [if_neg hv, List.count_cons_of_ne (Ne.symm hv)]

/-- Entering a constraint counts the variables that were folded into it. -/
theorem get?_register (t : Tableau K Q) (c : Constraint K) (v : VarId) :
    (t.register c).2.vars.get? v =
      (t.vars.get? v).map (Variable.retainFold^[c.tag.folded.count v]) := by
  rw [register]
  dsimp only
  rw [vars_count]
  exact get?_foldl_modifyVar Variable.retainFold c.tag.folded t v

/-- Entering a constraint leaves the same variables live. -/
theorem isLive_register (t : Tableau K Q) (c : Constraint K) (v : VarId) :
    (t.register c).2.vars.isLive v ↔ t.vars.isLive v := by
  have hsome := congrArg Option.isSome (get?_register t c v)
  rw [Option.isSome_map] at hsome
  exact Bool.eq_iff_iff.mp hsome

section Adding

variable [Scalar Q]

/-- A new variable gets the next handle. -/
theorem Filled.addVariable (h : t.Filled n) (kind : Kind) (stem : Option String) :
    (t.addVariable kind stem).1 = ⟨n⟩ ∧ (t.addVariable kind stem).2.Filled (n + 1) := by
  have hfirst : (t.addVariable kind stem).1 = ⟨n⟩ :=
    congrArg VarId.mk (Pool.nextFree_eq fun i => h ⟨i⟩)
  refine ⟨hfirst, fun v => ?_⟩
  rw [isLive_addVariable, hfirst, h v, Nat.lt_succ_iff_lt_or_eq, or_comm]
  exact or_congr_right ⟨fun hv => congrArg VarId.index hv, fun hv => VarId.eq_of_index_eq hv⟩

variable [Coefficient K]

/-- The variable of a part gets the next handle. -/
theorem Filled.makePart (h : t.Filled n) (p : Part K) :
    (t.makePart p).1 = ⟨n⟩ ∧ (t.makePart p).2.Filled (n + 1) := by
  have hfirst : (t.makePart p).1 = ⟨n⟩ := by
    cases p with
    | slack c => exact (h.addVariable .slack none).1
    | marker c => exact (h.addVariable .constant none).1
    | error s c => exact (h.addVariable .error none).1
  obtain ⟨name, penalty, hget⟩ := t.get?_makePart p
  refine ⟨hfirst, fun v => ?_⟩
  rw [VariablePool.isLive_iff, hget, hfirst]
  by_cases hv : v = ⟨n⟩
  · simp [hv]
  · have hne : v.index ≠ n := fun hi => hv (VarId.eq_of_index_eq hi)
    rw [if_neg hv, ← VariablePool.isLive_iff, h v]
    omega

/-- Joining parts fills one slot more for each. -/
theorem Filled.joinParts (h : t.Filled n) (e : LinExpr K) (ps : List (Part K)) :
    (t.joinParts e ps).2.2.Filled (n + ps.length) := by
  induction ps generalizing t e n with
  | nil => exact h
  | cons p ps ih =>
    rw [joinParts_cons, List.length_cons, Nat.add_comm ps.length, ← Nat.add_assoc]
    exact ih (h.makePart p).2 _

variable [Precision K Q] {request : Request K} {relation : Relation}

/-- Drafting a request fills one slot more for each of its parts. -/
theorem Filled.draft (h : t.Filled n) (request : Request K) (relation : Relation) :
    (t.draft request relation).2.Filled (n + (parts request relation).length) := by
  obtain ⟨tag, hdraft, -⟩ := t.draft_eq request relation
  have hslot : t.acquireRow.2.Filled n := h.of_isLive fun v => by rw [vars_acquireRow]
  rw [hdraft]
  exact hslot.joinParts _ _

/-- An **insertion** uses a handle for each variable that it keeps: those of an accepted request,
and none of a refused one. -/
theorem Filled.insert (h : t.Filled n) (ht : t.Linked none)
    (hsettled : Settled (t.insert request relation).1) :
    (t.insert request relation).2.Filled (n +
      if (t.insert request relation).1.toBool then (parts request relation).length else 0) := by
  have hplaceable := (ht.draft request relation).placeable ht
  cases hinsert : (t.insert request relation).1 with
  | error fault =>
    refine h.of_isLive fun v => ?_
    rw [ht.isLive_failed (ht.failed hinsert)]
    simp [hsettled fault hinsert]
  | ok id =>
    revert hinsert
    refine insert_cases (p := fun result => result.1 = .ok id → result.2.Filled _) ?_ ?_ ?_ ?_
    · exact fun v _ _ hok => absurd hok (by simp)
    · exact fun fault _ _ hok => absurd hok (by simp)
    · intro _ _ _
      refine ((h.draft request relation).of_sameVars ?_).of_isLive (isLive_register _ _)
      exact (Linked.place hplaceable).2
    · exact fun text f _ _ hok => absurd hok (by simp)

end Adding

/-- In an empty tableau no slot is filled. -/
theorem filled_empty [Coefficient K] [Scalar Q] (settings : Settings) :
    (empty settings : Tableau K Q).Filled 0 := by
  intro v
  simp [empty, VariablePool.empty, VariablePool.isLive, Pool.isLive, Pool.get?, Pool.empty]

end Tableau

end LexSimplex
