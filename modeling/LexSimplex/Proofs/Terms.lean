import Mathlib.Data.List.Nodup
import LexSimplex.Goal

/-!
# The variables of expressions and goals

Which variables have a term after an operation, in any arithmetic. Whether a sum is negligible
decides whether its term is kept, so after an addition it is open whether the added variable
has a term; all other variables keep theirs.

## Main results

* `LinExpr.mem_vars_substitute_of_notMem`: a substitution settles the term of every variable
  that the replacing expression does not have.
* `LinExpr.nodup_vars_substitute`: variables stay distinct.
* `Goal.Tidy`, `Goal.Tidy.substitute`: a goal has distinct variables and no zero vector.
-/

namespace LexSimplex

/-! ### Removal by moving the last element -/

/-- Where at most one element satisfies `p`, removing it leaves those that do not. -/
theorem swapErase_perm_filter {α : Type} {p : α → Bool} {l : List α}
    (h : l.Pairwise fun x y => p x → ¬p y) :
    (l.swapErase p).Perm (l.filter fun x => !p x) := by
  refine (List.swapErase_perm p l).trans (.of_eq ?_)
  induction l with
  | nil => rfl
  | cons x xs ih =>
      obtain ⟨hx, hxs⟩ := List.pairwise_cons.mp h
      by_cases hp : p x
      · have hrest : ∀ y ∈ xs, (!p y) = true := fun y hy => by simpa using hx y hy hp
        rw [List.eraseP_cons_of_pos hp, List.filter_cons_of_neg (by simp [hp]),
          List.filter_eq_self.mpr hrest]
      · rw [List.eraseP_cons_of_neg hp, List.filter_cons_of_pos (by simpa using hp), ih hxs]

/-- Removing one of distinct elements leaves the others. -/
theorem mem_swapErase_beq {α : Type} [DecidableEq α] {l : List α} (h : l.Nodup) (a x : α) :
    x ∈ l.swapErase (· == a) ↔ x ≠ a ∧ x ∈ l := by
  have hpair : l.Pairwise fun x y => (x == a) = true → ¬(y == a) = true := by
    refine h.imp ?_
    intro x y hxy hx hy
    exact hxy ((beq_iff_eq.mp hx).trans (beq_iff_eq.mp hy).symm)
  rw [(swapErase_perm_filter hpair).mem_iff, List.mem_filter]
  simp [and_comm]

/-- Removing an element keeps the others distinct. -/
theorem nodup_swapErase {α : Type} {p : α → Bool} {l : List α} (h : l.Nodup) :
    (l.swapErase p).Nodup :=
  (List.swapErase_perm p l).nodup_iff.mpr (h.eraseP p)

namespace Assoc

variable {κ β : Type} [DecidableEq κ]

/-- Erasing a key leaves the other keys. -/
theorem mem_keys_erase {m : Assoc κ β} {k k' : κ} :
    k' ∈ (m.erase k).keys ↔ k' ≠ k ∧ k' ∈ m.keys := by
  rw [keys_erase, List.mem_filter]
  simp [and_comm]

/-- A key taken out is gone, and the others stay. -/
theorem mem_keys_swapErase {m : Assoc κ β} (h : m.keys.Nodup) (k k' : κ) :
    k' ∈ (m.swapErase k).keys ↔ k' ≠ k ∧ k' ∈ m.keys := by
  have hperm : (m.swapErase k).keys.Perm (m.erase k).keys := (swapErase_perm h k).map Prod.fst
  rw [hperm.mem_iff, mem_keys_erase]

/-- After an insertion there is one key more, unless it was there. -/
theorem mem_keys_insert (m : Assoc κ β) (k : κ) (b : β) (k' : κ) :
    k' ∈ (m.insert k b).keys ↔ k' = k ∨ k' ∈ m.keys := by
  rw [keys_insert]
  by_cases hk : k ∈ m.keys
  · rw [if_pos hk]
    constructor
    · exact .inr
    · rintro (rfl | hk')
      · exact hk
      · exact hk'
  · rw [if_neg hk]
    simp [or_comm]

/-- What holds of all entries after one was inserted. -/
theorem forall_get?_insert {m : Assoc κ β} {k : κ} {b : β} {p : κ → β → Prop} :
    (∀ k' x, (m.insert k b).get? k' = some x → p k' x) ↔
      p k b ∧ ∀ k' x, k' ≠ k → m.get? k' = some x → p k' x := by
  simp only [get?_insert_eq_some_iff]
  constructor
  · exact fun hall => ⟨hall k b (.inl ⟨rfl, rfl⟩), fun k' x hk hx => hall k' x (.inr ⟨hk, hx⟩)⟩
  · rintro ⟨hb, hold⟩ k' x (⟨rfl, rfl⟩ | ⟨hk, hx⟩)
    · exact hb
    · exact hold k' x hk hx

/-- What holds of the inserted entry and of those that were there holds of all, even if one of
those is overwritten. -/
theorem forall_get?_insert_of_forall {m : Assoc κ β} {k : κ} {b : β} {p : κ → β → Prop}
    (hb : p k b) (hold : ∀ k' x, m.get? k' = some x → p k' x) :
    ∀ k' x, (m.insert k b).get? k' = some x → p k' x :=
  forall_get?_insert.mpr ⟨hb, fun k' x _ => hold k' x⟩

/-- What holds of all entries after one was inserted under a new key. -/
theorem forall_get?_insert_of_get?_eq_none {m : Assoc κ β} {k : κ} (hk : m.get? k = none) {b : β}
    {p : κ → β → Prop} :
    (∀ k' x, (m.insert k b).get? k' = some x → p k' x) ↔
      p k b ∧ ∀ k' x, m.get? k' = some x → p k' x := by
  rw [forall_get?_insert]
  refine and_congr_right fun _ =>
    ⟨fun hall k' x hx => hall k' x ?_ hx, fun hall k' x _ => hall k' x⟩
  rintro rfl
  rw [hk] at hx
  exact absurd hx (by simp)

/-- What holds of all entries after one was erased. -/
theorem forall_get?_erase {m : Assoc κ β} {k : κ} {p : κ → β → Prop} :
    (∀ k' x, (m.erase k).get? k' = some x → p k' x) ↔
      ∀ k' x, k' ≠ k → m.get? k' = some x → p k' x := by
  simp only [get?_erase_eq_some_iff, and_imp]

/-- An entry left by `swapErase` was there before. -/
theorem mem_of_mem_swapErase {m : Assoc κ β} {k : κ} {e : κ × β} (he : e ∈ m.swapErase k) :
    e ∈ m :=
  List.mem_of_mem_eraseP ((List.swapErase_perm _ m).mem_iff.mp he)

/-- An entry after an insertion is the one inserted or was there before. -/
theorem mem_of_mem_insert {m : Assoc κ β} {k : κ} {b : β} {e : κ × β} (he : e ∈ m.insert k b) :
    e = (k, b) ∨ e ∈ m := by
  by_cases hk : m.contains k
  · rw [insert, if_pos hk, set] at he
    obtain ⟨e', he', rfl⟩ := List.mem_map.mp he
    by_cases hek : e'.1 = k
    · exact .inl (if_pos hek)
    · rw [if_neg hek]
      exact .inr he'
  · rw [insert, if_neg hk] at he
    rcases List.mem_append.mp he with he | he
    · exact .inr he
    · exact .inl (List.mem_singleton.mp he)

end Assoc

/-! ### Linear expressions -/

namespace LinExpr

variable {K : Type}

/-- A variable has a term if it is among the variables. -/
theorem contains_iff {e : LinExpr K} {v : VarId} : e.contains v ↔ v ∈ e.vars :=
  Assoc.contains_iff

/-- A variable has no entry if it is not one of the variables. -/
theorem coefficient?_eq_none_iff {e : LinExpr K} {v : VarId} :
    e.coefficient? v = none ↔ v ∉ e.vars :=
  Assoc.get?_eq_none_iff

/-- Taking a variable out leaves the other variables. -/
theorem mem_vars_without {e : LinExpr K} (h : e.vars.Nodup) (v w : VarId) :
    w ∈ (e.without v).vars ↔ w ≠ v ∧ w ∈ e.vars :=
  Assoc.mem_keys_swapErase h v w

/-- Taking a variable out keeps the variables apart. -/
theorem nodup_vars_without {e : LinExpr K} (h : e.vars.Nodup) (v : VarId) :
    (e.without v).vars.Nodup :=
  Assoc.nodup_keys_swapErase h v

/-- Nothing happens to an expression without the variable. -/
theorem without_of_notMem {e : LinExpr K} {v : VarId} (h : v ∉ e.vars) : e.without v = e := by
  have hterms : List.swapErase (fun x => x.1 == v) e.terms = e.terms := by
    refine List.swapErase_of_forall_not ?_
    intro x hx hxv
    exact h (List.mem_map.mpr ⟨x, hx, beq_iff_eq.mp hxv⟩)
  rw [without, Assoc.swapErase, hterms]

variable [Coefficient K]

/-- Adding a term decides only whether its own variable is there. -/
theorem mem_vars_addTerm_of_ne {e : LinExpr K} (h : e.vars.Nodup) {v w : VarId} (hw : w ≠ v)
    (c : K) : w ∈ (e.addTerm v c).vars ↔ w ∈ e.vars := by
  rw [addTerm]
  by_cases hc : Coefficient.negligible c
  · rw [if_pos hc]
  · rw [if_neg hc]
    cases hx : e.coefficient? v with
    | none => simp [vars, Assoc.keys, hw]
    | some x =>
        by_cases hsum : Coefficient.negligible (x + c)
        · simp only [hsum, if_true]
          rw [mem_vars_without h]
          simp [hw]
        · simp [hsum, vars]

/-- Adding a term keeps the variables apart. -/
theorem nodup_vars_addTerm {e : LinExpr K} (h : e.vars.Nodup) (v : VarId) (c : K) :
    (e.addTerm v c).vars.Nodup := by
  rw [addTerm]
  by_cases hc : Coefficient.negligible c
  · rwa [if_pos hc]
  · rw [if_neg hc]
    cases hx : e.coefficient? v with
    | none =>
        have hv : v ∉ e.vars := coefficient?_eq_none_iff.mp hx
        have hkeys : (⟨e.constant, e.terms ++ [(v, c)]⟩ : LinExpr K).vars = e.vars ++ [v] := by
          simp [vars, Assoc.keys]
        rw [hkeys]
        exact List.nodup_append.mpr ⟨h, List.nodup_singleton v, fun a ha b hb hab =>
          hv (List.mem_singleton.mp hb ▸ hab ▸ ha)⟩
    | some x =>
        by_cases hsum : Coefficient.negligible (x + c)
        · simpa only [hsum, if_true] using nodup_vars_without h v
        · simpa [hsum, vars] using h

/-- Setting a term decides only whether its own variable is there. -/
theorem mem_vars_setTerm_of_ne {e : LinExpr K} (h : e.vars.Nodup) {v w : VarId} (hw : w ≠ v)
    (c : K) : w ∈ (e.setTerm v c).vars ↔ w ∈ e.vars := by
  rw [setTerm]
  by_cases hc : Coefficient.negligible c
  · rw [if_pos hc, mem_vars_without h]
    simp [hw]
  · rw [if_neg hc]
    exact (Assoc.mem_keys_insert e.terms v c w).trans (by simp [hw, vars])

/-- A term that is set to something which is not negligible is there. -/
theorem mem_vars_setTerm (e : LinExpr K) (v : VarId) {c : K} (hc : ¬Coefficient.negligible c) :
    v ∈ (e.setTerm v c).vars := by
  rw [setTerm, if_neg hc]
  exact (Assoc.mem_keys_insert _ _ _ _).mpr (.inl rfl)

/-- Setting a term keeps the variables apart. -/
theorem nodup_vars_setTerm {e : LinExpr K} (h : e.vars.Nodup) (v : VarId) (c : K) :
    (e.setTerm v c).vars.Nodup := by
  rw [setTerm]
  by_cases hc : Coefficient.negligible c
  · rw [if_pos hc]
    exact nodup_vars_without h v
  · rw [if_neg hc]
    exact Assoc.nodup_keys_insert h v c

/-- Negating leaves the variables. -/
@[simp] theorem vars_negate (e : LinExpr K) : e.negate.vars = e.vars := by
  simp [vars, negate, Assoc.keys, Function.comp_def]

/-- Scaling leaves the variables. -/
@[simp] theorem vars_scale (e : LinExpr K) (m : K) : (e.scale m).vars = e.vars := by
  simp [vars, scale, Assoc.keys, Function.comp_def]

/-- Solving for a variable takes it out of the expression. -/
@[simp] theorem vars_solveFor (e : LinExpr K) (v : VarId) :
    (e.solveFor v).vars = (e.without v).vars :=
  vars_scale _ _

/-- Adding terms one after another decides only whether their variables are there. -/
theorem foldl_addTerm (f : VarId × K → K) (terms : Assoc VarId K) {e : LinExpr K}
    (h : e.vars.Nodup) :
    (terms.foldl (fun e term => e.addTerm term.1 (f term)) e).vars.Nodup ∧
      ∀ w, w ∉ terms.keys →
        (w ∈ (terms.foldl (fun e term => e.addTerm term.1 (f term)) e).vars ↔ w ∈ e.vars) := by
  induction terms generalizing e with
  | nil => exact ⟨h, fun _ _ => Iff.rfl⟩
  | cons term terms ih =>
      obtain ⟨hnodup, hmem⟩ := ih (nodup_vars_addTerm h term.1 (f term))
      refine ⟨hnodup, fun w hw => ?_⟩
      simp only [Assoc.keys, List.map_cons, List.mem_cons, not_or] at hw
      exact (hmem w hw.2).trans (mem_vars_addTerm_of_ne h hw.1 _)

/-- Adding a multiple of an expression keeps the variables apart. -/
theorem nodup_vars_addScaled {e : LinExpr K} (h : e.vars.Nodup) (d : LinExpr K) (c : K) :
    (e.addScaled d c).vars.Nodup :=
  (foldl_addTerm (fun term => c * term.2) d.terms
    (e := { e with constant := e.constant + c * d.constant }) h).1

/-- Adding a multiple of `d` decides only whether the variables of `d` are there. -/
theorem mem_vars_addScaled_of_notMem {e d : LinExpr K} (h : e.vars.Nodup) {w : VarId}
    (hw : w ∉ d.vars) (c : K) : w ∈ (e.addScaled d c).vars ↔ w ∈ e.vars :=
  (foldl_addTerm (fun term => c * term.2) d.terms
    (e := { e with constant := e.constant + c * d.constant }) h).2 w hw

/-- A sum mentions what its parts mention. -/
theorem mem_or_mem_of_mem_addScaled {e d : LinExpr K} (h : e.vars.Nodup) {w : VarId} {c : K}
    (hw : w ∈ (e.addScaled d c).vars) : w ∈ d.vars ∨ w ∈ e.vars := by
  by_cases hd : w ∈ d.vars
  · exact .inl hd
  · exact .inr ((mem_vars_addScaled_of_notMem h hd c).mp hw)

/-- An expression solved for a variable has the others that `0 = e` has. -/
theorem mem_vars_solveFor {e : LinExpr K} (h : e.vars.Nodup) (v w : VarId) :
    w ∈ (e.solveFor v).vars ↔ w ≠ v ∧ w ∈ e.vars := by
  rw [vars_solveFor, mem_vars_without h]

/-- Solving for a variable keeps the variables apart. -/
theorem nodup_vars_solveFor {e : LinExpr K} (h : e.vars.Nodup) (v : VarId) :
    (e.solveFor v).vars.Nodup := by
  rw [vars_solveFor]
  exact nodup_vars_without h v

/-- An exchange keeps the variables apart. -/
theorem nodup_vars_exchange {e : LinExpr K} (h : e.vars.Nodup) (v w : VarId) :
    (e.exchange v w).vars.Nodup :=
  nodup_vars_solveFor (nodup_vars_setTerm h v _) w

/-- The expression of `w` from `v = e` has `v`, perhaps, and the other variables of `e`. -/
theorem mem_of_mem_exchange {e : LinExpr K} (h : e.vars.Nodup) {v w u : VarId}
    (hu : u ∈ (e.exchange v w).vars) : u ≠ w ∧ (u = v ∨ u ∈ e.vars) := by
  obtain ⟨huw, hu⟩ := (mem_vars_solveFor (nodup_vars_setTerm h v _) w u).mp hu
  refine ⟨huw, ?_⟩
  by_cases huv : u = v
  · exact .inl huv
  · exact .inr ((mem_vars_setTerm_of_ne h huv _).mp hu)

/-- Nothing is substituted where the variable has no term. -/
theorem substitute_of_notMem {e : LinExpr K} {v : VarId} (h : v ∉ e.vars) (d : LinExpr K) :
    e.substitute v d = e := by
  rw [substitute, coefficient?_eq_none_iff.mpr h]

/-- Replacing a variable keeps the variables apart. -/
theorem nodup_vars_substitute {e : LinExpr K} (h : e.vars.Nodup) (v : VarId) (d : LinExpr K) :
    (e.substitute v d).vars.Nodup := by
  rw [substitute]
  cases e.coefficient? v with
  | none => exact h
  | some c => exact nodup_vars_addScaled (nodup_vars_without h v) d c

/-- Substituting `d` for `v` removes `v` and decides only whether the variables of `d` are
there. -/
theorem mem_vars_substitute_of_notMem {e d : LinExpr K} (h : e.vars.Nodup) {v w : VarId}
    (hw : w ∉ d.vars) : w ∈ (e.substitute v d).vars ↔ w ≠ v ∧ w ∈ e.vars := by
  by_cases hv : v ∈ e.vars
  · obtain ⟨c, hc⟩ : ∃ c, e.coefficient? v = some c :=
      Option.ne_none_iff_exists'.mp fun hnone => coefficient?_eq_none_iff.mp hnone hv
    have hvars : (e.substitute v d).vars = ((e.without v).addScaled d c).vars := by
      simp [substitute, hc, vars]
    rw [hvars, mem_vars_addScaled_of_notMem (nodup_vars_without h v) hw, mem_vars_without h]
  · rw [substitute_of_notMem hv]
    constructor
    · intro hwe
      exact ⟨fun hwv => hv (hwv ▸ hwe), hwe⟩
    · exact And.right

/-- After a substitution there are variables of `d` and old ones other than `v`. -/
theorem mem_of_mem_substitute {e d : LinExpr K} (h : e.vars.Nodup) {v w : VarId}
    (hw : w ∈ (e.substitute v d).vars) : w ∈ d.vars ∨ (w ≠ v ∧ w ∈ e.vars) := by
  by_cases hd : w ∈ d.vars
  · exact .inl hd
  · exact .inr ((mem_vars_substitute_of_notMem h hd).mp hw)

end LinExpr

/-! ### Goals -/

namespace Goal

variable {K : Type}

/-- The variables of a goal, in order. -/
def vars (g : Goal K) : List VarId :=
  g.terms.keys

variable [Coefficient K]

/-- A goal is **tidy** if its variables are distinct and none of its vectors is zero. -/
structure Tidy (g : Goal K) : Prop where
  nodup : g.vars.Nodup
  ne_zero : ∀ term ∈ g.terms, term.2.isZero = false

/-- The zero goal is tidy. -/
theorem Tidy.zero : (zero : Goal K).Tidy :=
  ⟨List.nodup_nil, fun _ h => absurd h (List.not_mem_nil)⟩

/-- Taking a variable out of a tidy goal leaves the other variables. -/
theorem Tidy.mem_vars_without {g : Goal K} (h : g.Tidy) (v w : VarId) :
    w ∈ (g.without v).vars ↔ w ≠ v ∧ w ∈ g.vars :=
  Assoc.mem_keys_swapErase h.nodup v w

/-- Taking a variable out keeps a goal tidy. -/
theorem Tidy.without {g : Goal K} (h : g.Tidy) (v : VarId) : (g.without v).Tidy :=
  ⟨Assoc.nodup_keys_swapErase h.nodup v,
    fun term hterm => h.ne_zero term (Assoc.mem_of_mem_swapErase hterm)⟩

/-- A sum that is zero is not kept, so adding a term keeps a goal tidy. -/
theorem Tidy.addTerm {g : Goal K} (h : g.Tidy) (v : VarId) (a : TierVector K) (c : K) :
    (g.addTerm v a c).Tidy := by
  rw [Goal.addTerm]
  by_cases hz : ((g.coefficient v).addScaled a c).isZero
  · simpa only [hz, if_true] using h.without v
  · simp only [hz, Bool.false_eq_true, if_false]
    refine ⟨Assoc.nodup_keys_insert h.nodup v _, fun term hterm => ?_⟩
    rcases Assoc.mem_of_mem_insert hterm with rfl | hterm
    · exact Bool.not_eq_true _ ▸ hz
    · exact h.ne_zero term hterm

/-- Adding a term leaves the variables of a goal but its own. -/
theorem Tidy.mem_vars_addTerm_of_ne {g : Goal K} (h : g.Tidy) {v w : VarId} (hw : w ≠ v)
    (a : TierVector K) (c : K) : w ∈ (g.addTerm v a c).vars ↔ w ∈ g.vars := by
  rw [Goal.addTerm]
  by_cases hz : ((g.coefficient v).addScaled a c).isZero
  · simp only [hz, if_true]
    rw [h.mem_vars_without]
    simp [hw]
  · simp only [hz, Bool.false_eq_true, if_false]
    exact (Assoc.mem_keys_insert g.terms v _ w).trans (by simp [hw, vars])

/-- Adding terms one after another keeps a goal tidy, and decides only whether their variables
are there. -/
theorem Tidy.foldl_addTerm {β : Type} (f : VarId × β → K) (a : TierVector K)
    (terms : Assoc VarId β) {g : Goal K} (h : g.Tidy) :
    (terms.foldl (fun g term => g.addTerm term.1 a (f term)) g).Tidy ∧
      ∀ w, w ∉ terms.keys →
        (w ∈ (terms.foldl (fun g term => g.addTerm term.1 a (f term)) g).vars ↔
          w ∈ g.vars) := by
  induction terms generalizing g with
  | nil => exact ⟨h, fun _ _ => Iff.rfl⟩
  | cons term terms ih =>
      obtain ⟨htidy, hmem⟩ := ih (h.addTerm term.1 a (f term))
      refine ⟨htidy, fun w hw => ?_⟩
      simp only [Assoc.keys, List.map_cons, List.mem_cons, not_or] at hw
      exact (hmem w hw.2).trans (h.mem_vars_addTerm_of_ne hw.1 _ _)

/-- Another constant leaves a goal tidy. -/
theorem Tidy.withConstant {g : Goal K} (h : g.Tidy) (a : TierVector K) :
    ({ g with constant := a } : Goal K).Tidy :=
  ⟨h.nodup, h.ne_zero⟩

/-- Adding a multiple of an expression keeps a goal tidy. -/
theorem Tidy.addScaled {g : Goal K} (h : g.Tidy) (e : LinExpr K) (a : TierVector K) (c : K) :
    (g.addScaled e a c).Tidy :=
  (Tidy.foldl_addTerm (fun term => c * term.2) a e.terms (h.withConstant _)).1

/-- A sum mentions what its parts mention. -/
theorem Tidy.mem_or_mem_of_mem_addScaled {g : Goal K} (h : g.Tidy) {e : LinExpr K} {w : VarId}
    {a : TierVector K} {c : K} (hw : w ∈ (g.addScaled e a c).vars) :
    w ∈ e.vars ∨ w ∈ g.vars := by
  by_cases he : w ∈ e.vars
  · exact .inl he
  · have hstart := h.withConstant (g.constant.addScaled a (c * e.constant))
    exact .inr (((Tidy.foldl_addTerm (fun term => c * term.2) a e.terms hstart).2 w he).mp hw)

/-- Replacing a variable keeps a goal tidy. -/
theorem Tidy.substitute {g : Goal K} (h : g.Tidy) (v : VarId) (d : LinExpr K) :
    (g.substitute v d).Tidy := by
  rw [Goal.substitute]
  cases g.terms.get? v with
  | none => exact h
  | some a => exact (h.without v).addScaled d a 1

/-- After a substitution there are variables of `d` and old ones other than `v`. -/
theorem Tidy.mem_of_mem_substitute {g : Goal K} (h : g.Tidy) {v w : VarId} {d : LinExpr K}
    (hw : w ∈ (g.substitute v d).vars) : w ∈ d.vars ∨ (w ≠ v ∧ w ∈ g.vars) := by
  rw [Goal.substitute] at hw
  cases hv : g.terms.get? v with
  | none =>
      rw [hv] at hw
      exact .inr ⟨fun hwv => Assoc.get?_eq_none_iff.mp hv (hwv ▸ hw), hw⟩
  | some a =>
      rw [hv] at hw
      rcases (h.without v).mem_or_mem_of_mem_addScaled hw with hd | hg
      · exact .inl hd
      · exact .inr ((h.mem_vars_without v w).mp hg)

/-- An expression read as a goal of one tier is tidy and has no further variable. -/
theorem Tidy.ofExpr (e : LinExpr K) (s : Strength) :
    (ofExpr e s).Tidy ∧ ∀ w ∈ (ofExpr e s).vars, w ∈ e.vars := by
  have hstart : (⟨(TierVector.unit s).scaled e.constant, []⟩ : Goal K).Tidy :=
    Tidy.zero.withConstant _
  obtain ⟨htidy, hmem⟩ :=
    Tidy.foldl_addTerm (fun term => term.2) (TierVector.unit s) e.terms hstart
  refine ⟨htidy, fun w hw => ?_⟩
  by_contra he
  exact absurd ((hmem w he).mp hw) List.not_mem_nil

end Goal

end LexSimplex
