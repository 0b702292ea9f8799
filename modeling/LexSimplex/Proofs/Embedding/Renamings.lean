import LexSimplex.Proofs.Terms
import LexSimplex.Proofs.Variables
import LexSimplex.Solver.Command
import Mathlib.Logic.Equiv.Basic

/-!
# Renamings

A **renaming** gives other handles to variables and rows. It keeps the order of variables, which
breaks ties in pivoting, and tells rows apart. Whatever is computed from the terms of expressions
alone commutes with a renaming: the same terms come out, in the same order, under their new
handles.

## Main definitions

* `Renaming`: new handles for variables and rows.
* `Assoc.mapKeys`, `LinExpr.rename`, `Row.rename`, `Request.rename`, `Layout.rename`,
  `Command.rename`: things under new handles.
* `Goal.Agree`: objectives with the same vectors under the handles in use.

## Main results

* `LinExpr.rename_exchange`, `LinExpr.rename_substitute`: the operations of a pivot.
* `Layout.request_rename`: a renamed layout stands for the renamed request.
* `Goal.Agree.substitute`: objectives that agree still do after a substitution.
-/

namespace LexSimplex

/-- The last element moves into the gap whatever the elements are called. -/
theorem swapErase_map {α β : Type} (f : α → β) (p : β → Bool) (l : List α) :
    (l.map f).swapErase p = (l.swapErase (p ∘ f)).map f := by
  induction l with
  | nil => rfl
  | cons x xs ih =>
    rw [List.map_cons, List.swapErase, List.swapErase, Function.comp_apply]
    by_cases hx : p (f x)
    · rw [if_pos hx, if_pos hx, List.getLast?_map]
      cases xs.getLast? with
      | none => rfl
      | some z => simp
    · rw [if_neg hx, if_neg hx, ih, List.map_cons]

/-! ### Associations -/

namespace Assoc

variable {κ ι β : Type} [DecidableEq κ] [DecidableEq ι] {f : κ → ι}

/-- The entries of an association under other keys. -/
def mapKeys (f : κ → ι) (m : Assoc κ β) : Assoc ι β :=
  m.map fun e => (f e.1, e.2)

omit [DecidableEq κ] [DecidableEq ι] in

/-- The keys of a renamed map are the renamed keys. -/
@[simp] theorem keys_mapKeys (m : Assoc κ β) : (m.mapKeys f).keys = m.keys.map f := by
  simp [mapKeys, keys, Function.comp_def]

omit [DecidableEq κ] [DecidableEq ι] in

/-- Maps are renamed entry by entry. -/
@[simp] theorem mapKeys_append (m n : Assoc κ β) :
    mapKeys f (m ++ n) = mapKeys f m ++ mapKeys f n :=
  List.map_append

/-- A renamed map has at a renamed key what the map has at the key. -/
theorem get?_mapKeys (hf : f.Injective) (m : Assoc κ β) (k : κ) :
    (m.mapKeys f).get? (f k) = m.get? k := by
  induction m with
  | nil => rfl
  | cons e m ih =>
    have hcons : mapKeys f (e :: m) = (f e.1, e.2) :: mapKeys f m := rfl
    rw [hcons, get?_cons, get?_cons, ih]
    simp [hf.eq_iff]

/-- A renamed map has a renamed key if the map has the key. -/
theorem contains_mapKeys (hf : f.Injective) (m : Assoc κ β) (k : κ) :
    (m.mapKeys f).contains (f k) = m.contains k := by
  rw [contains, contains, get?_mapKeys hf]

/-- Overwriting and renaming commute. -/
theorem set_mapKeys (hf : f.Injective) (m : Assoc κ β) (k : κ) (b : β) :
    (m.mapKeys f).set (f k) b = (m.set k b).mapKeys f := by
  rw [set, set, mapKeys, mapKeys, List.map_map, List.map_map]
  refine List.map_congr_left fun e _ => ?_
  by_cases he : e.1 = k
  · simp [he]
  · simp [he, hf.eq_iff]

/-- Inserting and renaming commute. -/
theorem insert_mapKeys (hf : f.Injective) (m : Assoc κ β) (k : κ) (b : β) :
    (m.mapKeys f).insert (f k) b = (m.insert k b).mapKeys f := by
  rw [insert, insert, contains_mapKeys hf]
  by_cases hk : m.contains k
  · rw [if_pos hk, if_pos hk, set_mapKeys hf]
  · rw [if_neg hk, if_neg hk, mapKeys_append]
    rfl

/-- Erasing and renaming commute. -/
theorem erase_mapKeys (hf : f.Injective) (m : Assoc κ β) (k : κ) :
    (m.mapKeys f).erase (f k) = (m.erase k).mapKeys f := by
  rw [erase, erase, mapKeys, mapKeys, List.filter_map]
  congr 1
  refine List.filter_congr fun e _ => ?_
  simp [bne, hf.beq_eq]

/-- Erasing by a swap and renaming commute. -/
theorem swapErase_mapKeys (hf : f.Injective) (m : Assoc κ β) (k : κ) :
    (m.mapKeys f).swapErase (f k) = (m.swapErase k).mapKeys f := by
  rw [swapErase, swapErase, mapKeys, mapKeys, swapErase_map]
  congr 2
  funext e
  exact hf.beq_eq

end Assoc

/-! ### Linear expressions -/

namespace LinExpr

variable {K : Type} {f : VarId → VarId}

/-- An expression under other handles. -/
def rename (f : VarId → VarId) (e : LinExpr K) : LinExpr K :=
  ⟨e.constant, e.terms.mapKeys f⟩

/-- Renaming leaves the constant of an expression. -/
@[simp] theorem constant_rename (f : VarId → VarId) (e : LinExpr K) :
    (e.rename f).constant = e.constant :=
  rfl

/-- The variables of a renamed expression are the renamed variables. -/
@[simp] theorem vars_rename (f : VarId → VarId) (e : LinExpr K) :
    (e.rename f).vars = e.vars.map f :=
  Assoc.keys_mapKeys e.terms

/-- A renamed variable has the entry that the variable had. -/
theorem coefficient?_rename (hf : f.Injective) (e : LinExpr K) (v : VarId) :
    (e.rename f).coefficient? (f v) = e.coefficient? v :=
  Assoc.get?_mapKeys hf e.terms v

/-- A renamed expression has a renamed variable if it had the variable. -/
theorem contains_rename (hf : f.Injective) (e : LinExpr K) (v : VarId) :
    (e.rename f).contains (f v) = e.contains v :=
  Assoc.contains_mapKeys hf e.terms v

/-- Taking a variable out and renaming commute. -/
theorem rename_without (hf : f.Injective) (e : LinExpr K) (v : VarId) :
    (e.without v).rename f = (e.rename f).without (f v) := by
  rw [rename, without, without, rename, Assoc.swapErase_mapKeys hf]

/-- A renaming is undone by one that takes the handles in use back. -/
theorem rename_rename_of_forall {g : VarId → VarId} {e : LinExpr K}
    (h : ∀ v ∈ e.vars, f (g v) = v) : (e.rename g).rename f = e := by
  obtain ⟨c, terms⟩ := e
  rw [rename, rename, LinExpr.mk.injEq, Assoc.mapKeys, Assoc.mapKeys, List.map_map]
  refine ⟨rfl, (List.map_congr_left fun x hx => ?_).trans (List.map_id terms)⟩
  rw [Function.comp_apply, h x.1 (List.mem_map_of_mem hx)]
  rfl

variable [Coefficient K]

/-- A renamed variable has the coefficient that the variable had. -/
theorem coefficient_rename (hf : f.Injective) (e : LinExpr K) (v : VarId) :
    (e.rename f).coefficient (f v) = e.coefficient v := by
  rw [coefficient, coefficient, coefficient?_rename hf]

/-- Adding a term and renaming commute. -/
theorem rename_addTerm (hf : f.Injective) (e : LinExpr K) (v : VarId) (c : K) :
    (e.addTerm v c).rename f = (e.rename f).addTerm (f v) c := by
  rw [addTerm, addTerm, coefficient?_rename hf]
  by_cases hc : Coefficient.negligible c
  · rw [if_pos hc, if_pos hc]
  · rw [if_neg hc, if_neg hc]
    cases e.coefficient? v with
    | none => rw [rename, Assoc.mapKeys_append]; rfl
    | some x =>
      by_cases hx : Coefficient.negligible (x + c)
      · simp only [hx, if_true, rename_without hf]
      · simp only [hx, Bool.false_eq_true, if_false, rename, Assoc.set_mapKeys hf]

/-- Setting a term and renaming commute. -/
theorem rename_setTerm (hf : f.Injective) (e : LinExpr K) (v : VarId) (c : K) :
    (e.setTerm v c).rename f = (e.rename f).setTerm (f v) c := by
  rw [setTerm, setTerm]
  by_cases hc : Coefficient.negligible c
  · rw [if_pos hc, if_pos hc, rename_without hf]
  · rw [if_neg hc, if_neg hc, rename, rename, Assoc.insert_mapKeys hf]

/-- Adding terms and renaming commute. -/
theorem rename_foldl_addTerm (hf : f.Injective) (g : K → K) (terms : Assoc VarId K)
    (e : LinExpr K) :
    (terms.foldl (fun e term => e.addTerm term.1 (g term.2)) e).rename f =
      (terms.mapKeys f).foldl (fun e term => e.addTerm term.1 (g term.2)) (e.rename f) := by
  induction terms generalizing e with
  | nil => rfl
  | cons term terms ih => exact (ih _).trans (by rw [rename_addTerm hf]; rfl)

/-- Adding a multiple of an expression and renaming commute. -/
theorem rename_addScaled (hf : f.Injective) (e d : LinExpr K) (c : K) :
    (e.addScaled d c).rename f = (e.rename f).addScaled (d.rename f) c :=
  rename_foldl_addTerm hf (c * ·) d.terms _

/-- Negating and renaming commute. -/
theorem rename_negate (f : VarId → VarId) (e : LinExpr K) :
    e.negate.rename f = (e.rename f).negate := by
  simp [rename, negate, Assoc.mapKeys, Function.comp_def]

/-- Scaling and renaming commute. -/
theorem rename_scale (f : VarId → VarId) (e : LinExpr K) (c : K) :
    (e.scale c).rename f = (e.rename f).scale c := by
  simp [rename, scale, Assoc.mapKeys, Function.comp_def]

/-- Solving for a variable and renaming commute. -/
theorem rename_solveFor (hf : f.Injective) (e : LinExpr K) (v : VarId) :
    (e.solveFor v).rename f = (e.rename f).solveFor (f v) := by
  rw [solveFor, solveFor, rename_scale, rename_without hf, coefficient?_rename hf]

/-- Exchanging variables and renaming commute. -/
theorem rename_exchange (hf : f.Injective) (e : LinExpr K) (v w : VarId) :
    (e.exchange v w).rename f = (e.rename f).exchange (f v) (f w) := by
  rw [exchange, exchange, rename_solveFor hf, rename_setTerm hf]

/-- Replacing a variable and renaming commute. -/
theorem rename_substitute (hf : f.Injective) (e : LinExpr K) (v : VarId) (d : LinExpr K) :
    (e.substitute v d).rename f = (e.rename f).substitute (f v) (d.rename f) := by
  rw [substitute, substitute, coefficient?_rename hf]
  cases e.coefficient? v with
  | none => rfl
  | some c =>
    dsimp only
    rw [← rename_without hf, ← rename_addScaled hf]
    rfl

end LinExpr

/-! ### Handles and rows -/

/-- New handles for variables and rows. The order of variables is kept, and rows stay apart. -/
structure Renaming where
  var : VarId → VarId
  row : RowId → RowId
  var_lt_iff : ∀ {v w}, var v < var w ↔ v < w
  row_injective : row.Injective

/-- A renaming sends no two variables to one, since it keeps their order. -/
theorem Renaming.var_injective (m : Renaming) : m.var.Injective := by
  intro v w h
  have hlt : ∀ {v w : VarId}, m.var v = m.var w → ¬v < w := fun {v w} h hvw => by
    have := m.var_lt_iff.mpr hvw
    rw [h, VarId.lt_iff] at this
    exact Nat.lt_irrefl _ this
  have hv := hlt h
  have hw := hlt h.symm
  rw [VarId.lt_iff] at hv hw
  exact VarId.eq_of_index_eq (by omega)

/-- A row under other handles. -/
def Row.rename {K : Type} (m : Renaming) (r : Row K) : Row K :=
  ⟨m.row r.id, m.var r.basic, r.expr.rename m.var⟩

/-! ### Objectives -/

namespace Goal

variable {K : Type} {f : VarId → VarId} {p : VarId → Prop} {g h : Goal K}

/-- An objective and a second one **agree** on variables if these have the same vectors in the
second, under their new handles. -/
def Agree (f : VarId → VarId) (p : VarId → Prop) (g h : Goal K) : Prop :=
  ∀ v, p v → h.terms.get? (f v) = g.terms.get? v

/-- Goals that agree on some variables agree on fewer. -/
theorem Agree.mono {q : VarId → Prop} (hgh : Agree f p g h) (hq : ∀ v, q v → p v) :
    Agree f q g h :=
  fun v hv => hgh v (hq v hv)

/-- An objective under other handles. -/
def rename (f : VarId → VarId) (g : Goal K) : Goal K :=
  ⟨g.constant, g.terms.mapKeys f⟩

/-- The variables of a renamed goal are the renamed variables. -/
@[simp] theorem vars_rename (f : VarId → VarId) (g : Goal K) : (g.rename f).vars = g.vars.map f :=
  Assoc.keys_mapKeys g.terms

/-- A goal agrees with the renamed goal everywhere. -/
theorem agree_rename (hf : f.Injective) (p : VarId → Prop) (g : Goal K) :
    Agree f p g (g.rename f) :=
  fun v _ => Assoc.get?_mapKeys hf g.terms v

/-- Taking a variable out of a goal and renaming commute. -/
theorem rename_without (hf : f.Injective) (g : Goal K) (v : VarId) :
    (g.without v).rename f = (g.rename f).without (f v) := by
  rw [rename, Goal.without, Goal.without, rename, Assoc.swapErase_mapKeys hf]

variable [Coefficient K]

/-- Once a variable is taken out of a goal, nothing is found there, and elsewhere what was. -/
theorem Tidy.get?_without (hg : g.Tidy) (v w : VarId) :
    (g.without v).terms.get? w = if w = v then none else g.terms.get? w :=
  Assoc.get?_swapErase hg.nodup v w

/-- After a term is added its variable has the sum, or nothing where that is zero; the others have
what they had. -/
theorem Tidy.get?_addTerm (hg : g.Tidy) (v : VarId) (a : TierVector K) (c : K) (w : VarId) :
    (g.addTerm v a c).terms.get? w =
      if w = v then
        (if ((g.coefficient v).addScaled a c).isZero then none
          else some ((g.coefficient v).addScaled a c))
      else g.terms.get? w := by
  rw [Goal.addTerm]
  by_cases hz : ((g.coefficient v).addScaled a c).isZero
  · simp only [hz, if_true]
    exact hg.get?_without v w
  · simp only [hz, Bool.false_eq_true, if_false]
    exact Assoc.get?_insert g.terms v _ w

/-- Goals stay in agreement where the same variable is taken out of both. -/
theorem Agree.without (hgh : Agree f p g h) (hf : f.Injective) (hg : g.Tidy) (hh : h.Tidy)
    (v : VarId) : Agree f p (g.without v) (h.without (f v)) := by
  intro w hw
  rw [hg.get?_without, hh.get?_without, hgh w hw]
  simp only [hf.eq_iff]

/-- Goals stay in agreement where the same term is added to both. -/
theorem Agree.addTerm (hgh : Agree f p g h) (hf : f.Injective) (hg : g.Tidy) (hh : h.Tidy)
    (v : VarId) (a : TierVector K) (c : K) :
    Agree f p (g.addTerm v a c) (h.addTerm (f v) a c) := by
  intro w hw
  rw [hg.get?_addTerm, hh.get?_addTerm, hgh w hw]
  by_cases hwv : w = v
  · subst hwv
    rw [if_pos rfl, if_pos rfl, coefficient, coefficient, hgh w hw]
  · rw [if_neg hwv, if_neg fun he => hwv (hf he)]

/-- Goals stay in agreement where the same terms are added to both. -/
theorem Agree.foldl_addTerm (hgh : Agree f p g h) (hf : f.Injective) (hg : g.Tidy)
    (hh : h.Tidy) (k : K → K) (a : TierVector K) (terms : Assoc VarId K) :
    Agree f p (terms.foldl (fun g term => g.addTerm term.1 a (k term.2)) g)
      ((terms.mapKeys f).foldl (fun g term => g.addTerm term.1 a (k term.2)) h) := by
  induction terms generalizing g h with
  | nil => exact hgh
  | cons term terms ih =>
    exact ih (hgh.addTerm hf hg hh term.1 a (k term.2)) (hg.addTerm ..) (hh.addTerm ..)

/-- Goals stay in agreement where a multiple of the same expression is added to both. -/
theorem Agree.addScaled (hgh : Agree f p g h) (hf : f.Injective) (hg : g.Tidy) (hh : h.Tidy)
    (e : LinExpr K) (a : TierVector K) (c : K) :
    Agree f p (g.addScaled e a c) (h.addScaled (e.rename f) a c) :=
  Agree.foldl_addTerm (g := { g with constant := g.constant.addScaled a (c * e.constant) })
    (h := { h with constant := h.constant.addScaled a (c * (e.rename f).constant) }) hgh hf
    (hg.withConstant _) (hh.withConstant _) (c * ·) a e.terms

/-- Goals stay in agreement where the same variable is replaced in both. -/
theorem Agree.substitute (hgh : Agree f p g h) (hf : f.Injective) (hg : g.Tidy) (hh : h.Tidy)
    {v : VarId} (hv : p v) (d : LinExpr K) :
    Agree f p (g.substitute v d) (h.substitute (f v) (d.rename f)) := by
  rw [Goal.substitute, Goal.substitute, hgh v hv]
  cases g.terms.get? v with
  | none => exact hgh
  | some a => exact (hgh.without hf hg hh v).addScaled hf (hg.without v) (hh.without (f v)) d a 1

/-- A substitution changes the vectors of the variables in it only. -/
theorem Tidy.get?_foldl_addTerm_of_notMem (hg : g.Tidy) (k : K → K) (a : TierVector K)
    (terms : Assoc VarId K) {w : VarId} (hw : w ∉ terms.keys) :
    (terms.foldl (fun g term => g.addTerm term.1 a (k term.2)) g).terms.get? w =
      g.terms.get? w := by
  induction terms generalizing g with
  | nil => rfl
  | cons term terms ih =>
    obtain ⟨hne, hmem⟩ := List.ne_and_not_mem_of_not_mem_cons hw
    rw [List.foldl_cons, ih (hg.addTerm ..) hmem, hg.get?_addTerm, if_neg hne]

/-- Replacing a variable leaves what is found at one that the replacement does not mention. -/
theorem Tidy.get?_substitute_of_notMem (hg : g.Tidy) {v w : VarId} {d : LinExpr K} (hv : w ≠ v)
    (hw : w ∉ d.vars) : (g.substitute v d).terms.get? w = g.terms.get? w := by
  rw [Goal.substitute]
  cases g.terms.get? v with
  | none => rfl
  | some a =>
    refine (((hg.without v).withConstant _).get?_foldl_addTerm_of_notMem (1 * ·) a d.terms
      hw).trans ?_
    exact (hg.get?_without v w).trans (if_neg hv)

/-- Adding a term to a goal and renaming commute. -/
theorem rename_addTerm (hf : f.Injective) (g : Goal K) (v : VarId) (a : TierVector K) (c : K) :
    (g.addTerm v a c).rename f = (g.rename f).addTerm (f v) a c := by
  have hcoef : (g.rename f).coefficient (f v) = g.coefficient v := by
    rw [coefficient, coefficient, rename, Assoc.get?_mapKeys hf]
  rw [Goal.addTerm, Goal.addTerm, hcoef]
  by_cases hz : ((g.coefficient v).addScaled a c).isZero
  · simp only [hz, if_true, rename_without hf]
  · simp only [hz, Bool.false_eq_true, if_false, rename, Assoc.insert_mapKeys hf]

/-- Adding terms to a goal and renaming commute. -/
theorem rename_foldl_addTerm (hf : f.Injective) (k : K → K) (a : TierVector K)
    (terms : Assoc VarId K) (g : Goal K) :
    (terms.foldl (fun g term => g.addTerm term.1 a (k term.2)) g).rename f =
      (terms.mapKeys f).foldl (fun g term => g.addTerm term.1 a (k term.2)) (g.rename f) := by
  induction terms generalizing g with
  | nil => rfl
  | cons term terms ih => exact (ih _).trans (by rw [rename_addTerm hf]; rfl)

/-- Replacing a variable in a goal and renaming commute. -/
theorem rename_substitute (hf : f.Injective) (g : Goal K) (v : VarId) (d : LinExpr K) :
    (g.substitute v d).rename f = (g.rename f).substitute (f v) (d.rename f) := by
  have hget : (g.rename f).terms.get? (f v) = g.terms.get? v := Assoc.get?_mapKeys hf g.terms v
  rw [Goal.substitute, Goal.substitute, hget]
  cases g.terms.get? v with
  | none => rfl
  | some a =>
    dsimp only
    rw [← rename_without hf]
    exact rename_foldl_addTerm hf (1 * ·) a d.terms _

/-- A renamed expression makes the renamed goal. -/
theorem rename_ofExpr (hf : f.Injective) (e : LinExpr K) (s : Strength) :
    (ofExpr e s).rename f = ofExpr (e.rename f) s :=
  rename_foldl_addTerm hf id (TierVector.unit s) e.terms _

end Goal

/-! ### Requests and commands -/

namespace Request

variable {K Q : Type} {f : VarId → VarId}

/-- A request under other handles. -/
def rename (f : VarId → VarId) (r : Request K) : Request K :=
  { r with expr := r.expr.rename f }

variable [Coefficient K]

/-- Adding to a coefficient of a request and renaming commute. -/
theorem plus_mapKeys (hf : f.Injective) (terms : Assoc VarId K) (v : VarId) (c : K) :
    plus (terms.mapKeys f) (f v) c = (plus terms v c).mapKeys f := by
  rw [plus, plus, Assoc.get?_mapKeys hf]
  cases terms.get? v with
  | none =>
    by_cases hc : Coefficient.negligible c
    · simp only [hc, if_true]
    · simp only [hc, Bool.false_eq_true, if_false, Assoc.mapKeys_append]
      rfl
  | some x =>
    by_cases hx : Coefficient.negligible (x + c)
    · simp only [hx, if_true, Assoc.erase_mapKeys hf]
    · simp only [hx, Bool.false_eq_true, if_false, Assoc.set_mapKeys hf]

variable [Precision K Q]

/-- Adding a term to a request and renaming commute. -/
theorem rename_addTerm (hf : f.Injective) (r : Request K) (v : VarId) (c : Q) :
    (r.addTerm v c).rename f = (r.rename f).addTerm (f v) c := by
  rw [addTerm, addTerm]
  exact congrArg (fun terms => { r with expr := ⟨r.expr.constant, terms⟩ })
    (plus_mapKeys hf r.expr.terms v _).symm

/-- An added term is about its variable. -/
theorem vars_addTerm (r : Request K) (v : VarId) (c : Q) :
    (r.addTerm v c).expr.vars ⊆ v :: r.expr.vars := by
  have hvars : (r.addTerm v c).expr.vars =
      (plus r.expr.terms v (Precision.widen c : K)).keys := rfl
  have hkeys : r.expr.vars = r.expr.terms.keys := rfl
  rw [hvars, hkeys, plus]
  split
  · split
    · exact List.subset_cons_self _ _
    · simp [Assoc.keys]
  · split
    · rw [Assoc.keys_erase]
      exact List.subset_cons_of_subset _ List.filter_sublist.subset
    · rw [Assoc.keys_set]
      exact List.subset_cons_self _ _

/-- Adding a constant to a request and renaming commute. -/
theorem rename_addConstant (f : VarId → VarId) (r : Request K) (c : Q) :
    (r.addConstant c).rename f = (r.rename f).addConstant c :=
  rfl

end Request

namespace Layout

variable {K Q : Type} {f : VarId → VarId}

/-- A layout under other handles. -/
def rename (f : VarId → VarId) : Layout Q → Layout Q
  | .equality a b margin => .equality (f a) (f b) margin
  | .greater a b margin => .greater (f a) (f b) margin
  | .lower a b margin => .lower (f a) (f b) margin
  | .value a x => .value (f a) x
  | .centering a b marginAB bias c d marginCD =>
    .centering (f a) (f b) marginAB bias (f c) (f d) marginCD
  | .ratio a b c d scale => .ratio (f a) (f b) (f c) (f d) scale

/-- The variables that a layout is about. -/
def vars : Layout Q → List VarId
  | .equality a b _ | .greater a b _ | .lower a b _ => [a, b]
  | .value a _ => [a]
  | .centering a b _ _ c d _ | .ratio a b c d _ => [a, b, c, d]

/-- A renamed layout asks for the same relation. -/
@[simp] theorem relation_rename (f : VarId → VarId) (layout : Layout Q) :
    (layout.rename f).relation = layout.relation := by
  cases layout <;> rfl

/-- Renaming a layout there and back gives it again. -/
theorem rename_rename_of_forall {g : VarId → VarId} {layout : Layout Q}
    (h : ∀ v ∈ layout.vars, f (g v) = v) : (layout.rename g).rename f = layout := by
  cases layout <;> simp_all [rename, vars]

variable [Coefficient K] [Scalar Q] [Precision K Q]

/-- A renamed layout stands for the renamed request. -/
theorem request_rename (hf : f.Injective) (layout : Layout Q) (s : Strength) :
    (layout.rename f).request s = ((layout.request s).rename f : Request K) := by
  have hempty : (Request.empty : Request K).rename f = Request.empty := rfl
  have hstrength : ∀ r : Request K, (r.setStrength s).rename f = (r.rename f).setStrength s :=
    fun r => rfl
  rw [request, request, hstrength]
  cases layout <;>
    simp only [rename, shape, offset, position, balance, proportion,
      Request.rename_addTerm hf, Request.rename_addConstant, hempty]

/-- A layout names the variables that it is about, at most. -/
theorem vars_request (layout : Layout Q) (s : Strength) :
    (layout.request s : Request K).expr.vars ⊆ layout.vars := by
  have hcons : ∀ (r : Request K) (v : VarId) (c : Q) (vs : List VarId),
      r.expr.vars ⊆ vs → v ∈ vs → (r.addTerm v c).expr.vars ⊆ vs := fun r v c vs hr hv =>
    List.Subset.trans (r.vars_addTerm v c) (List.cons_subset.mpr ⟨hv, hr⟩)
  have hconst : ∀ (r : Request K) (c : Q), (r.addConstant c).expr.vars = r.expr.vars :=
    fun _ _ => rfl
  have hempty : ∀ vs : List VarId, (Request.empty : Request K).expr.vars ⊆ vs :=
    List.nil_subset
  have hstrength : (layout.request s : Request K).expr.vars =
      (layout.shape : Request K).expr.vars := rfl
  rw [hstrength]
  cases layout <;>
    simp only [shape, offset, position, balance, proportion, vars, hconst] <;>
    repeat' first | exact hempty _ | refine hcons _ _ _ _ ?_ (by simp)

end Layout

namespace Command

variable {K Q : Type} {f : VarId → VarId}

/-- A command under other handles of variables. -/
def rename (f : VarId → VarId) : Command K Q → Command K Q
  | .add request relation => .add (request.rename f) relation
  | .arrange layout strength => .arrange (layout.rename f) strength
  | .pin v x => .pin (f v) x
  | .unpin v => .unpin (f v)
  | c => c

/-- The variables that a command is given. -/
def mentions : Command K Q → List VarId
  | .add request _ => request.expr.vars
  | .arrange layout _ => layout.vars
  | .pin v _ | .unpin v => [v]
  | _ => []

/-- A renamed command mentions the renamed variables. -/
theorem mentions_rename (f : VarId → VarId) (c : Command K Q) :
    (c.rename f).mentions = c.mentions.map f := by
  cases c with
  | add request relation => exact LinExpr.vars_rename f request.expr
  | arrange layout strength => cases layout <;> rfl
  | pin | unpin | declare | remove | optimize | reset | resetCounters => rfl

/-- Renaming a command there and back gives it again. -/
theorem rename_rename_of_forall {g : VarId → VarId} {c : Command K Q}
    (h : ∀ v ∈ c.mentions, f (g v) = v) : (c.rename g).rename f = c := by
  cases c with
  | add request relation =>
    exact congrArg (fun e => Command.add { request with expr := e } relation)
      (LinExpr.rename_rename_of_forall h)
  | arrange layout strength =>
    exact congrArg (Command.arrange · strength) (Layout.rename_rename_of_forall h)
  | pin v x => exact congrArg (Command.pin · x) (h v (by simp [mentions]))
  | unpin v => exact congrArg Command.unpin (h v (by simp [mentions]))
  | declare | remove | optimize | reset | resetCounters => rfl

end Command

end LexSimplex
