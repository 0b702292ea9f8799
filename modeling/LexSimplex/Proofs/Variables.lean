import LexSimplex.Proofs.Terms
import LexSimplex.Tableau.Basic

/-!
# The variables of a tableau

What a variable pool holds after an operation, variable by variable. Row operations change only
the **links** of variables: the definition of a basic variable and the list of rows in which a
variable has a term. What is left of a variable without its links is its **core**, and two
tableaux have the **same variables** if the cores agree.

## Main results

* `VariablePool.get?_foldl_modify`: distinct variables changed one after another.
* `Variable.mem_refs_addRef`, `Variable.mem_refs_removeRef`: the rows that a variable lists.
* `Tableau.SameVars`: what row operations keep of the variables.
-/

namespace LexSimplex

/-- A handle of a variable is its index. -/
theorem VarId.eq_of_index_eq {v w : VarId} (h : v.index = w.index) : v = w := by
  cases v
  cases w
  exact congrArg VarId.mk h

/-- A handle of a row is its index. -/
theorem RowId.eq_of_index_eq {r s : RowId} (h : r.index = s.index) : r = s := by
  cases r
  cases s
  exact congrArg RowId.mk h

namespace Pool

variable {β : Type}

/-- A live slot was made. -/
theorem lt_highWater_of_isLive {p : Pool β} {i : Nat} (h : p.isLive i) : i < p.highWater := by
  by_contra hi
  rw [isLive, get?_of_length_le (Nat.le_of_not_lt hi)] at h
  simp at h

/-- Changing an entry leaves the mark where it was. -/
@[simp] theorem highWater_modify (p : Pool β) (i : Nat) (f : β → β) :
    (p.modify i f).highWater = p.highWater :=
  List.length_modify _ _ _

/-- Freeing a slot leaves the mark where it was. -/
@[simp] theorem highWater_release (p : Pool β) (i : Nat) :
    (p.release i).highWater = p.highWater :=
  List.length_set

/-- Changing all entries leaves the mark where it was. -/
@[simp] theorem highWater_map (p : Pool β) (f : β → β) : (p.map f).highWater = p.highWater :=
  List.length_map _

/-- Freeing all slots leaves the mark where it was. -/
@[simp] theorem highWater_reset (p : Pool β) : p.reset.highWater = p.highWater :=
  List.length_map _

/-- Slots are never destroyed. -/
theorem highWater_le_occupy (p : Pool β) (b : β) : p.highWater ≤ (p.occupy b).highWater := by
  rw [occupy]
  split
  · exact Nat.le_of_eq List.length_set.symm
  · simp [highWater]

end Pool

namespace VariablePool

variable {Q : Type}

/-- A live variable has a slot that was made. -/
theorem lt_highWater_of_isLive {p : VariablePool Q} {v : VarId} (h : p.isLive v) :
    v.index < p.slots.highWater :=
  Pool.lt_highWater_of_isLive h

/-- Changing variables makes no slot. -/
theorem highWater_foldl_modify (vs : List VarId) (f : VarId → Variable Q → Variable Q)
    (p : VariablePool Q) :
    (vs.foldl (fun p v => p.modify v (f v)) p).slots.highWater = p.slots.highWater := by
  induction vs generalizing p with
  | nil => rfl
  | cons v vs ih => exact (ih _).trans (Pool.highWater_modify _ _ _)

/-- A variable is live if something is found at its handle. -/
theorem isLive_iff {p : VariablePool Q} {v : VarId} : p.isLive v ↔ ∃ x, p.get? v = some x :=
  Option.isSome_iff_exists

/-- A slot that is not live holds no variable. -/
theorem get?_of_not_isLive {p : VariablePool Q} {v : VarId} (h : ¬p.isLive v) :
    p.get? v = none :=
  Option.not_isSome_iff_eq_none.mp h

/-- Changing a variable changes what is found at its handle only. -/
theorem get?_modify (p : VariablePool Q) (v : VarId) (f : Variable Q → Variable Q)
    (w : VarId) : (p.modify v f).get? w = if w = v then (p.get? w).map f else p.get? w := by
  rw [get?, modify, Pool.get?_modify]
  by_cases h : w = v
  · rw [if_pos h, if_pos (congrArg VarId.index h)]
    rfl
  · rw [if_neg h, if_neg fun hi => h (VarId.eq_of_index_eq hi)]
    rfl

/-- Nothing is found at the handle of a released variable, and elsewhere what was there. -/
theorem get?_release (p : VariablePool Q) (v w : VarId) :
    (p.release v).get? w = if w = v then none else p.get? w := by
  rw [get?, release, Pool.get?_release]
  by_cases h : w = v
  · rw [if_pos h, if_pos (congrArg VarId.index h)]
  · rw [if_neg h, if_neg fun hi => h (VarId.eq_of_index_eq hi)]
    rfl

/-- Changing all variables changes what is found at every handle. -/
theorem get?_map (p : VariablePool Q) (f : Variable Q → Variable Q) (v : VarId) :
    (p.map f).get? v = (p.get? v).map f :=
  Pool.get?_map _ _ _

/-- Nothing is found after a reset. -/
theorem get?_reset (p : VariablePool Q) (v : VarId) : p.reset.get? v = none :=
  Pool.get?_reset _ _

/-- Each of distinct variables is changed once. -/
theorem get?_foldl_modify {vs : List VarId} (h : vs.Nodup)
    (f : VarId → Variable Q → Variable Q) (p : VariablePool Q) (w : VarId) :
    (vs.foldl (fun p v => p.modify v (f v)) p).get? w =
      if w ∈ vs then (p.get? w).map (f w) else p.get? w := by
  induction vs generalizing p with
  | nil => simp
  | cons v vs ih =>
      obtain ⟨hv, hvs⟩ := List.nodup_cons.mp h
      rw [List.foldl_cons, ih hvs, get?_modify]
      by_cases hw : w = v
      · subst hw
        simp [hv]
      · simp [hw]

section Acquire

variable [Scalar Q]

/-- A new variable is in its slot, and the others are what they were. -/
theorem get?_acquire (p : VariablePool Q) (kind : Kind) (stem : Option String) :
    ∃ name, ∀ w, (p.acquire kind stem).2.get? w =
      if w = (p.acquire kind stem).1 then
        some (Variable.fresh (p.acquire kind stem).1 kind name)
      else p.get? w := by
  refine ⟨stem.map (· ++ toString (if stem.isSome then (p.named + 1) % UInt32.size else p.named)),
    fun w => ?_⟩
  have hw : (w = ⟨p.slots.nextFree⟩) ↔ w.index = p.slots.nextFree :=
    ⟨fun h => h ▸ rfl, fun h => VarId.eq_of_index_eq h⟩
  simp only [get?, acquire, Pool.get?_occupy, hw]

/-- A new variable was not live. -/
theorem get?_acquire_fst (p : VariablePool Q) (kind : Kind) (stem : Option String) :
    p.get? (p.acquire kind stem).1 = none := by
  have hfree : p.slots.isLive p.slots.nextFree = false := p.slots.isLive_nextFree
  exact Option.not_isSome_iff_eq_none.mp (ne_true_of_eq_false hfree)

end Acquire

end VariablePool

/-! ### Links -/

namespace Variable

variable {Q : Type}

/-- A variable without its links. -/
def core (x : Variable Q) : Variable Q :=
  { x with definition := none, refs := [] }

/-- What a variable is to constraints: its kind, whether it is pinned, and its value. -/
def role (x : Variable Q) : Kind × Bool × Q :=
  (x.kind, x.pinned, x.computed)

/-- Where a variable is defined is not part of its core. -/
@[simp] theorem core_define (x : Variable Q) (r : Option RowId) : (x.define r).core = x.core :=
  rfl

/-- The rows that mention a variable are not part of its core. -/
@[simp] theorem core_addRef (x : Variable Q) (r : RowId) : (x.addRef r).core = x.core := by
  rw [addRef]
  by_cases h : r ∈ x.refs
  · rw [if_pos h]
  · rw [if_neg h]
    rfl

/-- A new reference leaves a variable its handle. -/
@[simp] theorem id_addRef (x : Variable Q) (r : RowId) : (x.addRef r).id = x.id :=
  (congrArg Variable.id (core_addRef x r) : (x.addRef r).core.id = x.core.id)

/-- Dropping a reference leaves the core of a variable. -/
@[simp] theorem core_removeRef (x : Variable Q) (r : RowId) : (x.removeRef r).core = x.core :=
  rfl

/-- A variable is defined where it was last said to be. -/
@[simp] theorem definition_define (x : Variable Q) (r : Option RowId) :
    (x.define r).definition = r :=
  rfl

/-- Defining a variable leaves its references. -/
@[simp] theorem refs_define (x : Variable Q) (r : Option RowId) : (x.define r).refs = x.refs :=
  rfl

/-- A new reference leaves the definition of a variable. -/
@[simp] theorem definition_addRef (x : Variable Q) (r : RowId) :
    (x.addRef r).definition = x.definition := by
  rw [addRef]
  split <;> rfl

/-- Dropping a reference leaves the definition of a variable. -/
@[simp] theorem definition_removeRef (x : Variable Q) (r : RowId) :
    (x.removeRef r).definition = x.definition :=
  rfl

/-- A new reference is added to those that were there. -/
theorem mem_refs_addRef (x : Variable Q) (r s : RowId) :
    s ∈ (x.addRef r).refs ↔ s = r ∨ s ∈ x.refs := by
  rw [addRef]
  by_cases h : r ∈ x.refs
  · rw [if_pos h]
    constructor
    · exact .inr
    · rintro (rfl | hs)
      · exact h
      · exact hs
  · rw [if_neg h]
    simp [or_comm]

/-- A reference that is there already is not added again. -/
theorem nodup_refs_addRef {x : Variable Q} (h : x.refs.Nodup) (r : RowId) :
    (x.addRef r).refs.Nodup := by
  rw [addRef]
  by_cases hr : r ∈ x.refs
  · rwa [if_pos hr]
  · rw [if_neg hr]
    exact List.nodup_append.mpr ⟨h, List.nodup_singleton r, fun a ha b hb hab =>
      hr (List.mem_singleton.mp hb ▸ hab ▸ ha)⟩

/-- Dropping a reference drops no other. -/
theorem mem_refs_removeRef {x : Variable Q} (h : x.refs.Nodup) (r s : RowId) :
    s ∈ (x.removeRef r).refs ↔ s ≠ r ∧ s ∈ x.refs :=
  mem_swapErase_beq h r s

/-- Dropping a reference keeps the others apart. -/
theorem nodup_refs_removeRef {x : Variable Q} (h : x.refs.Nodup) (r : RowId) :
    (x.removeRef r).refs.Nodup :=
  nodup_swapErase h

end Variable

/-! ### Tableaux with the same variables -/

namespace Tableau

variable {K Q : Type} {t t' t'' : Tableau K Q}

/-- The number of variable slots ever made. -/
def highWater (t : Tableau K Q) : Nat :=
  t.vars.slots.highWater

/-- A tableau comes to have the **same variables** in another if these differ in their links
only and no slot was lost. -/
structure SameVars (t t' : Tableau K Q) : Prop where
  core_eq : ∀ v, (t'.vars.get? v).map Variable.core = (t.vars.get? v).map Variable.core
  highWater_le : t.highWater ≤ t'.highWater

/-- Every tableau has its own variables. -/
theorem SameVars.refl (t : Tableau K Q) : t.SameVars t :=
  ⟨fun _ => rfl, Nat.le_refl _⟩

/-- Having the same variables carries over two changes. -/
theorem SameVars.trans (h : t.SameVars t') (h' : t'.SameVars t'') : t.SameVars t'' :=
  ⟨fun v => (h'.core_eq v).trans (h.core_eq v), Nat.le_trans h.highWater_le h'.highWater_le⟩

/-- The same pool has the same variables. -/
theorem SameVars.of_eq (h : t'.vars = t.vars) : t.SameVars t' :=
  ⟨fun v => by rw [h], Nat.le_of_eq (by rw [highWater, highWater, h])⟩

/-- A live variable stays live, with the same core. -/
theorem SameVars.get?_eq_some (h : t.SameVars t') {v : VarId} {x : Variable Q}
    (hx : t.vars.get? v = some x) : ∃ x', t'.vars.get? v = some x' ∧ x'.core = x.core := by
  have hv := h.core_eq v
  rw [hx, Option.map_some] at hv
  exact Option.map_eq_some_iff.mp hv

/-- Where the variables are the same, the same ones are live. -/
theorem SameVars.isLive_iff (h : t.SameVars t') (v : VarId) :
    t'.vars.isLive v ↔ t.vars.isLive v := by
  have hsome := congrArg Option.isSome (h.core_eq v)
  rw [Option.isSome_map, Option.isSome_map] at hsome
  exact Eq.to_iff (congrArg (· = true) hsome)

/-- What depends on the core of a variable alone is the same in both tableaux. -/
theorem SameVars.map_eq {β : Type} (h : t.SameVars t') {f : Variable Q → β}
    (hf : ∀ x, f x.core = f x) (v : VarId) :
    (t'.vars.get? v).map f = (t.vars.get? v).map f := by
  have hcore := congrArg (Option.map f) (h.core_eq v)
  have hcomp : f ∘ Variable.core = f := funext hf
  rwa [Option.map_map, Option.map_map, hcomp] at hcore

/-- Where the variables are the same, they are of the same kinds. -/
theorem SameVars.kind_eq (h : t.SameVars t') (v : VarId) : t'.kind v = t.kind v := by
  rw [kind, kind, h.map_eq (f := Variable.kind) (fun _ => rfl)]

/-- The kind of a live variable is the one that its entry says. -/
theorem kind_of_get? {v : VarId} {x : Variable Q} (h : t.vars.get? v = some x) :
    t.kind v = x.kind := by
  rw [kind, h, Option.map_some, Option.getD_some]

/-! ### Tableaux that keep variables -/

/-- A tableau **keeps** its variables in another, but for those in `vs`, if these stay live with
their kinds and values and no slot was lost. -/
structure Keeps (vs : List VarId) (t t' : Tableau K Q) : Prop where
  role_eq : ∀ v, v ∉ vs → t.vars.isLive v →
    (t'.vars.get? v).map Variable.role = (t.vars.get? v).map Variable.role
  highWater_le : t.highWater ≤ t'.highWater

section Keeps

variable {vs : List VarId} {v : VarId}

/-- Where the variables are the same, all but any others are kept. -/
theorem SameVars.keeps (h : t.SameVars t') : Keeps vs t t' :=
  ⟨fun v _ _ => h.map_eq (f := Variable.role) (fun _ => rfl) v, h.highWater_le⟩

/-- A variable that is kept stays live. -/
theorem Keeps.isLive (h : Keeps vs t t') (hv : v ∉ vs) (hlive : t.vars.isLive v) :
    t'.vars.isLive v := by
  have hsome := congrArg Option.isSome (h.role_eq v hv hlive)
  rw [Option.isSome_map, Option.isSome_map] at hsome
  exact hsome.trans hlive

/-- Keeping variables carries over two changes. -/
theorem Keeps.trans (h : Keeps vs t t') (h' : Keeps vs t' t'') : Keeps vs t t'' :=
  ⟨fun v hv hlive => (h'.role_eq v hv (h.isLive hv hlive)).trans (h.role_eq v hv hlive),
    Nat.le_trans h.highWater_le h'.highWater_le⟩

/-- Where no variable of `vs` was live, all that were are kept. -/
theorem Keeps.of_forall_not_isLive (h : Keeps vs t t') (hvs : ∀ v ∈ vs, ¬t.vars.isLive v) :
    Keeps [] t t' :=
  ⟨fun v _ hlive => h.role_eq v (fun hv => hvs v hv hlive) hlive, h.highWater_le⟩

/-- A variable that is kept has its kind, and is folded to the same value or not at all. -/
theorem Keeps.get?_eq_some (h : Keeps vs t t') (hv : v ∉ vs) {x : Variable Q}
    (hx : t.vars.get? v = some x) : ∃ y, t'.vars.get? v = some y ∧ y.kind = x.kind ∧
      y.pinned = x.pinned ∧ y.computed = x.computed := by
  have hrole := h.role_eq v hv (VariablePool.isLive_iff.mpr ⟨x, hx⟩)
  rw [hx, Option.map_some] at hrole
  obtain ⟨y, hy, hyx⟩ := Option.map_eq_some_iff.mp hrole
  simp only [Variable.role, Prod.mk.injEq] at hyx
  exact ⟨y, hy, hyx⟩

/-- A variable that is kept stays of its kind. -/
theorem Keeps.kind_eq (h : Keeps vs t t') (hv : v ∉ vs) (hlive : t.vars.isLive v) :
    t'.kind v = t.kind v := by
  obtain ⟨x, hx⟩ := VariablePool.isLive_iff.mp hlive
  obtain ⟨y, hy, hkind, -⟩ := h.get?_eq_some hv hx
  rw [kind_of_get? hx, kind_of_get? hy, hkind]

/-- A change that leaves kinds alone leaves that of every variable. -/
theorem kind_modifyVar (t : Tableau K Q) (v : VarId) {f : Variable Q → Variable Q}
    (hf : ∀ x, (f x).kind = x.kind) (w : VarId) : (t.modifyVar v f).kind w = t.kind w := by
  have hget : (t.modifyVar v f).vars.get? w = _ := VariablePool.get?_modify t.vars v f w
  rw [kind, kind, hget]
  by_cases hw : w = v
  · rw [if_pos hw]
    cases t.vars.get? w with
    | none => rfl
    | some x => exact hf x
  · rw [if_neg hw]

/-- Changing variables changes nothing else. -/
theorem foldl_modifyVar (f : Variable Q → Variable Q) (ws : List VarId) (t : Tableau K Q) :
    ∃ p, ws.foldl (fun t w => t.modifyVar w f) t = { t with vars := p } := by
  induction ws generalizing t with
  | nil => exact ⟨t.vars, rfl⟩
  | cons w ws ih =>
      obtain ⟨p, hp⟩ := ih (t.modifyVar w f)
      exact ⟨p, hp⟩

/-- Changes that leave kinds and values alone keep a variable. -/
theorem Keeps.foldl_modifyVar {f : Variable Q → Variable Q} (hf : ∀ x, (f x).role = x.role)
    (vs ws : List VarId) (t : Tableau K Q) :
    Keeps vs t (ws.foldl (fun t w => t.modifyVar w f) t) := by
  induction ws generalizing t with
  | nil => exact (SameVars.refl t).keeps
  | cons w ws ih =>
      refine Keeps.trans ⟨fun v _ _ => ?_, ?_⟩ (ih (t.modifyVar w f))
      · have hmodify : (t.modifyVar w f).vars.get? v = _ :=
          VariablePool.get?_modify t.vars w f v
        rw [hmodify]
        by_cases hv : v = w
        · rw [if_pos hv, Option.map_map]
          exact congrArg (fun g => (t.vars.get? v).map g) (funext hf)
        · rw [if_neg hv]
      · exact Nat.le_of_eq (Pool.highWater_modify _ _ _).symm

end Keeps

/-! ### The counters -/

section Count

variable (t : Tableau K Q) (f : Counters → Counters)

/-- Counting leaves the variables. -/
@[simp] theorem vars_count : (t.count f).vars = t.vars := by
  rw [count]
  split <;> rfl

/-- Counting leaves the slots of rows. -/
@[simp] theorem rowSlots_count : (t.count f).rowSlots = t.rowSlots := by
  rw [count]
  split <;> rfl

/-- Counting leaves the rows. -/
@[simp] theorem rows_count : (t.count f).rows = t.rows := by
  rw [count]
  split <;> rfl

/-- Counting leaves the goal. -/
@[simp] theorem goal_count : (t.count f).goal = t.goal := by
  rw [count]
  split <;> rfl

/-- Counting leaves the objective of phase one. -/
@[simp] theorem phaseOne_count : (t.count f).phaseOne = t.phaseOne := by
  rw [count]
  split <;> rfl

/-- Counting leaves the constraints. -/
@[simp] theorem constraints_count : (t.count f).constraints = t.constraints := by
  rw [count]
  split <;> rfl

/-- Counting enters no constraint. -/
@[simp] theorem entered_count : (t.count f).entered = t.entered := by
  rw [count]
  split <;> rfl

/-- Counting leaves the settings. -/
@[simp] theorem settings_count : (t.count f).settings = t.settings := by
  rw [count]
  split <;> rfl

/-- Counting leaves every variable of its kind. -/
@[simp] theorem kind_count (v : VarId) : (t.count f).kind v = t.kind v := by
  rw [kind, kind, vars_count]

/-- Counting leaves the references of every variable. -/
@[simp] theorem refs_count (v : VarId) : (t.count f).refs v = t.refs v := by
  rw [refs, refs, vars_count]

/-- Counting leaves what is found at the handle of a row. -/
@[simp] theorem row?_count (id : RowId) : (t.count f).row? id = t.row? id := by
  rw [row?, row?, rows_count]

end Count

/-- Counting keeps the variables. -/
theorem SameVars.count (f : Counters → Counters) : t.SameVars (t.count f) :=
  .of_eq (vars_count t f)

/-! ### Slots of rows -/

section Slots

variable (t : Tableau K Q)

@[simp] theorem vars_acquireRow : t.acquireRow.2.vars = t.vars :=
  vars_count _ _

@[simp] theorem rows_acquireRow : t.acquireRow.2.rows = t.rows :=
  rows_count _ _

/-- Acquiring a row occupies a slot for it, and changes nothing else. -/
theorem rowSlots_acquireRow : t.acquireRow.2.rowSlots = t.rowSlots.occupy () :=
  rowSlots_count _ _

@[simp] theorem goal_acquireRow : t.acquireRow.2.goal = t.goal :=
  goal_count _ _

@[simp] theorem phaseOne_acquireRow : t.acquireRow.2.phaseOne = t.phaseOne :=
  phaseOne_count _ _

@[simp] theorem constraints_acquireRow : t.acquireRow.2.constraints = t.constraints :=
  constraints_count _ _

@[simp] theorem entered_acquireRow :
    t.acquireRow.2.entered = t.entered :=
  entered_count _ _

end Slots

/-! ### New variables -/

section AddVariable

variable [Scalar Q] (t : Tableau K Q) (kind : Kind) (stem : Option String)

/-- A new variable leaves the rows. -/
@[simp] theorem rows_addVariable : (t.addVariable kind stem).2.rows = t.rows :=
  rows_count _ _

@[simp] theorem rowSlots_addVariable : (t.addVariable kind stem).2.rowSlots = t.rowSlots :=
  rowSlots_count _ _

/-- A new variable is not in the goal. -/
@[simp] theorem goal_addVariable : (t.addVariable kind stem).2.goal = t.goal :=
  goal_count _ _

@[simp] theorem phaseOne_addVariable : (t.addVariable kind stem).2.phaseOne = t.phaseOne :=
  phaseOne_count _ _

@[simp] theorem constraints_addVariable :
    (t.addVariable kind stem).2.constraints = t.constraints :=
  constraints_count _ _

@[simp] theorem entered_addVariable :
    (t.addVariable kind stem).2.entered = t.entered :=
  entered_count _ _

/-- A new variable is fresh, and the others are what they were. -/
theorem get?_addVariable :
    ∃ name, ∀ w, (t.addVariable kind stem).2.vars.get? w =
      if w = (t.addVariable kind stem).1 then
        some (Variable.fresh (t.addVariable kind stem).1 kind name)
      else t.vars.get? w := by
  obtain ⟨name, hname⟩ := t.vars.get?_acquire kind stem
  refine ⟨name, fun w => ?_⟩
  have hvars : (t.addVariable kind stem).2.vars = (t.vars.acquire kind stem).2 := vars_count _ _
  rw [hvars]
  exact hname w

/-- A new variable may take a new slot. -/
theorem highWater_le_addVariable : t.highWater ≤ (t.addVariable kind stem).2.highWater := by
  have hvars : (t.addVariable kind stem).2.vars = (t.vars.acquire kind stem).2 := vars_count _ _
  rw [highWater, highWater, hvars]
  exact Pool.highWater_le_occupy _ _

/-- A new variable was not live. -/
theorem get?_addVariable_fst : t.vars.get? (t.addVariable kind stem).1 = none :=
  t.vars.get?_acquire_fst kind stem

/-- A new variable is live beside those that were. -/
theorem isLive_addVariable (w : VarId) :
    (t.addVariable kind stem).2.vars.isLive w ↔
      w = (t.addVariable kind stem).1 ∨ t.vars.isLive w := by
  obtain ⟨name, hget⟩ := t.get?_addVariable kind stem
  rw [VariablePool.isLive_iff, VariablePool.isLive_iff, hget]
  by_cases hw : w = (t.addVariable kind stem).1
  · simp [hw]
  · simp [hw]

/-- A variable that was added and is released again leaves the variables as they were. -/
theorem SameVars.release_addVariable {t t' : Tableau K Q} {kind : Kind} {stem : Option String}
    (h : (t.addVariable kind stem).2.SameVars t') :
    t.SameVars { t' with vars := t'.vars.release (t.addVariable kind stem).1 } := by
  obtain ⟨name, hget⟩ := t.get?_addVariable kind stem
  refine ⟨fun w => ?_, ?_⟩
  · have hrelease := VariablePool.get?_release t'.vars (t.addVariable kind stem).1 w
    by_cases hw : w = (t.addVariable kind stem).1
    · rw [hrelease, if_pos hw, hw, t.get?_addVariable_fst kind stem]
    · rw [hrelease, if_neg hw, h.core_eq, hget, if_neg hw]
  · refine Nat.le_trans (Nat.le_trans (highWater_le_addVariable t kind stem) h.highWater_le) ?_
    exact Nat.le_of_eq (Pool.highWater_release _ _).symm

end AddVariable

end Tableau

end LexSimplex
