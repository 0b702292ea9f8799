import LexSimplex.Proofs.HiddenConstraints

/-!
# Counting folds

A pinned variable is taken into a constraint as a number, and it counts the constraints that have
it so. The count is kept up where constraints come and go, and it must agree with the notes of the
solver: a variable that some constraint took in is pinned, or it is held. Where a constraint is
overwritten, once handles have come round, its folds are not taken back, so that a variable may
count more than are there, but never less.

This needs a caller who pins only variables that were created by the caller, and who draws up
requests in which no variable occurs twice. What is said here holds in any arithmetic.

## Main definitions

* `Tableau.foldCount`: the number of constraints that have a variable folded in.
* `Tableau.Counted`: the variables count right, and those that are folded in are the caller's.
* `Solver.Booked`: what is counted agrees with what is noted.
* `Session.Proper`: a command pins and unpins own variables only, and names no variable twice.

## Main results

* `Tableau.Counted.enter`, `Tableau.Counted.withdraw`: counting goes on where constraints come and
  go.
* `Solver.Booked.move`: the books are kept by moves.
* `Session.Proper.keeps`, `Session.Run.booked`: they are in order in every session of such a caller.
-/

namespace LexSimplex

variable {K Q : Type}

namespace Assoc

variable {κ β : Type} [DecidableEq κ] {m : Assoc κ β} {k : κ} {b : β}

/-- A new entry is counted beside the others. -/
theorem countP_insert_of_get?_eq_none (h : m.get? k = none) (b : β) (p : κ × β → Bool) :
    (m.insert k b).countP p = m.countP p + if p (k, b) then 1 else 0 := by
  rw [insert, if_neg (by simp [contains, h]), List.countP_append, List.countP_singleton]

/-- An entry that is erased is counted no more. -/
theorem countP_erase_of_get? (hm : m.keys.Nodup) (h : m.get? k = some b) (p : κ × β → Bool) :
    m.countP p = (m.erase k).countP p + if p (k, b) then 1 else 0 := by
  induction m with
  | nil => exact absurd h (by simp)
  | cons e m ih =>
      obtain ⟨hfresh, hm⟩ := List.nodup_cons.mp hm
      rw [get?_cons] at h
      by_cases he : k = e.1
      · rw [if_pos he] at h
        obtain rfl : (k, b) = e := Prod.ext he (Option.some.inj h).symm
        have herase : erase ((k, b) :: m) k = m := by
          have hkeep : ∀ e ∈ m, (e.1 != k) = true := fun e he =>
            bne_iff_ne.mpr fun heq => hfresh (List.mem_map.mpr ⟨e, he, heq⟩)
          simp [erase, List.filter_eq_self.mpr hkeep]
        rw [herase, List.countP_cons]
      · rw [if_neg he] at h
        have herase : erase (e :: m) k = e :: erase m k := by
          simp [erase, Ne.symm he]
        rw [herase, List.countP_cons, List.countP_cons, ih hm h, Nat.add_right_comm]

/-- Erasing forgets what was inserted under the key. -/
theorem erase_insert (m : Assoc κ β) (k : κ) (b : β) : (m.insert k b).erase k = m.erase k := by
  rw [insert]
  split
  · rw [set, erase, erase, List.filter_map, List.filter_congr (q := fun e => e.1 != k)]
    · refine (List.map_congr_left fun e he => ?_).trans (List.map_id _)
      exact if_neg (by simpa using List.of_mem_filter he)
    · intro e _
      by_cases he : e.1 = k
      · simp [he]
      · simp [he]
  · simp [erase]

/-- An entry that is overwritten is no longer counted. -/
theorem countP_insert_le (hm : m.keys.Nodup) (k : κ) (b : β) (p : κ × β → Bool) :
    (m.insert k b).countP p ≤ m.countP p + if p (k, b) then 1 else 0 := by
  have hget : (m.insert k b).get? k = some b := (get?_insert m k b k).trans (if_pos rfl)
  rw [countP_erase_of_get? (nodup_keys_insert hm k b) hget, erase_insert]
  exact Nat.add_le_add_right List.filter_sublist.countP_le _

end Assoc

/-! ### The count of a variable -/

namespace Tableau

/-- The number of constraints that have a variable folded in. -/
def foldCount (t : Tableau K Q) (v : VarId) : Nat :=
  t.constraints.countP fun e => v ∈ e.2.tag.folded

variable {own : VarId → Prop} {t t' : Tableau K Q} {v : VarId} {id : ConstraintId}
  {c : Constraint K}

/-- How often a variable is folded in depends on the constraints. -/
theorem foldCount_congr (h : t'.constraints = t.constraints) (v : VarId) :
    t'.foldCount v = t.foldCount v := by
  rw [foldCount, foldCount, h]

/-- What is folded into some constraint is counted. -/
theorem foldCount_pos_iff (h : t.constraints.keys.Nodup) :
    0 < t.foldCount v ↔ ∃ id c, t.constraints.get? id = some c ∧ v ∈ c.tag.folded := by
  rw [foldCount, List.countP_pos_iff]
  constructor
  · rintro ⟨⟨id, c⟩, hmem, hv⟩
    exact ⟨id, c, (Assoc.get?_eq_some_iff h).mpr hmem, by simpa using hv⟩
  · rintro ⟨id, c, hc, hv⟩
    exact ⟨⟨id, c⟩, (Assoc.get?_eq_some_iff h).mp hc, by simpa using hv⟩

/-- The folds of a tableau are **counted** right if every variable counts the constraints that have
it folded in, and, once handles have come round, perhaps some that were overwritten. No constraint
lists one twice, and those listed are the caller's `own` variables, which are live and not made for
a constraint. -/
structure Counted (own : VarId → Prop) (t : Tableau K Q) : Prop where
  isLive : ∀ v, own v → t.vars.isLive v
  apart : ∀ id c, t.constraints.get? id = some c → ∀ v ∈ c.tag.vars, ¬own v
  nodup : ∀ id c, t.constraints.get? id = some c → c.tag.folded.Nodup
  folded : ∀ id c, t.constraints.get? id = some c → ∀ v ∈ c.tag.folded, own v
  folds_eq_zero : ∀ v x, ¬own v → t.vars.get? v = some x → x.folds = 0
  foldCount_le : ∀ v x, t.vars.get? v = some x → t.foldCount v ≤ x.folds
  folds_eq : t.Unwrapped → ∀ v x, t.vars.get? v = some x → x.folds = t.foldCount v

namespace Counted

/-- A handle at which nothing is found is not the caller's. -/
theorem not_own_of_get? (h : t.Counted own) (hv : t.vars.get? v = none) : ¬own v :=
  fun hown => VariablePool.not_isLive_of_get? hv (h.isLive v hown)

/-- A variable that is not the caller's is folded in nowhere. -/
theorem foldCount_eq_zero (h : t.Counted own) (hnodup : t.constraints.keys.Nodup)
    (hv : ¬own v) : t.foldCount v = 0 := by
  by_contra hpos
  obtain ⟨id, c, hc, hmem⟩ := (foldCount_pos_iff hnodup).mp (Nat.pos_of_ne_zero hpos)
  exact hv (h.folded id c hc v hmem)

/-- It is enough that the counts change with the constraints: by as much as long as handles have not
come round, and afterwards at least by as much. A new variable is folded nowhere. -/
theorem of_counts (h : t.Counted own) (hnodup : t'.constraints.keys.Nodup)
    (hle : t.entered ≤ t'.entered) (hisLive : ∀ v, own v → t'.vars.isLive v)
    (hapart : ∀ id c, t'.constraints.get? id = some c → ∀ v ∈ c.tag.vars, ¬own v)
    (hdistinct : ∀ id c, t'.constraints.get? id = some c → c.tag.folded.Nodup)
    (hfolded : ∀ id c, t'.constraints.get? id = some c → ∀ v ∈ c.tag.folded, own v)
    (hcounts : ∀ v x', t'.vars.get? v = some x' → (t.vars.get? v = none ∧ x'.folds = 0) ∨
      ∃ x, t.vars.get? v = some x ∧ (¬own v → x'.folds ≤ x.folds) ∧
        (t.foldCount v ≤ x.folds → t'.foldCount v ≤ x'.folds) ∧
        (t'.Unwrapped → x.folds = t.foldCount v → x'.folds = t'.foldCount v)) :
    t'.Counted own := by
  have hzero : ∀ v, ¬own v → t'.foldCount v = 0 := by
    intro v hv
    by_contra hpos
    obtain ⟨id, c, hc, hmem⟩ := (foldCount_pos_iff hnodup).mp (Nat.pos_of_ne_zero hpos)
    exact hv (hfolded id c hc v hmem)
  refine ⟨hisLive, hapart, hdistinct, hfolded, fun v x' hv hx' => ?_, fun v x' hx' => ?_,
    fun hroom v x' hx' => ?_⟩
  · rcases hcounts v x' hx' with ⟨-, hnew⟩ | ⟨x, hx, hsame, -⟩
    · exact hnew
    · exact Nat.le_zero.mp (h.folds_eq_zero v x hv hx ▸ hsame hv)
  · rcases hcounts v x' hx' with ⟨hnone, -⟩ | ⟨x, hx, -, hkept, -⟩
    · rw [hzero v (h.not_own_of_get? hnone)]
      exact Nat.zero_le _
    · exact hkept (h.foldCount_le v x hx)
  · rcases hcounts v x' hx' with ⟨hnone, hnew⟩ | ⟨x, hx, -, -, hkept⟩
    · rw [hnew, hzero v (h.not_own_of_get? hnone)]
    · exact hkept hroom (h.folds_eq (hroom.of_le hle) v x hx)

/-- Counting is not disturbed where the constraints and the counts of the variables stay. -/
theorem of_folds (h : t.Counted own) (hnodup : t.constraints.keys.Nodup)
    (hcons : t'.constraints = t.constraints) (hnext : t'.entered = t.entered)
    (hold : ∀ v x, t.vars.get? v = some x → ∃ x', t'.vars.get? v = some x' ∧ x'.folds = x.folds)
    (hnew : ∀ v x, t.vars.get? v = none → t'.vars.get? v = some x → x.folds = 0) :
    t'.Counted own := by
  refine h.of_counts (hcons ▸ hnodup) (Nat.le_of_eq hnext.symm) (fun v hv => ?_) (hcons ▸ h.apart)
    (hcons ▸ h.nodup) (hcons ▸ h.folded) fun v x' hx' => ?_
  · obtain ⟨x, hx⟩ := VariablePool.isLive_iff.mp (h.isLive v hv)
    obtain ⟨x', hx', -⟩ := hold v x hx
    exact VariablePool.isLive_iff.mpr ⟨x', hx'⟩
  · cases hx : t.vars.get? v with
    | none => exact .inl ⟨rfl, hnew v x' hx hx'⟩
    | some x =>
        obtain ⟨y, hy, hfolds⟩ := hold v x hx
        obtain rfl : y = x' := Option.some.inj (hy.symm.trans hx')
        rw [foldCount_congr hcons, hfolds]
        exact .inr ⟨x, rfl, fun _ => Nat.le_refl _, id, fun _ => id⟩

/-- Changes that leave the counts of a variable keep them right. -/
theorem modifyVar (h : t.Counted own) (hnodup : t.constraints.keys.Nodup) (v : VarId)
    {f : Variable Q → Variable Q} (hf : ∀ x, (f x).folds = x.folds) :
    (t.modifyVar v f).Counted own := by
  refine h.of_folds hnodup rfl rfl (fun w x hx => ?_) fun w x hnone hx => ?_
  · rw [get?_modifyVar, hx]
    split
    · exact ⟨_, rfl, hf x⟩
    · exact ⟨x, rfl, rfl⟩
  · rw [get?_modifyVar, hnone] at hx
    simp at hx

variable [Coefficient K]

/-- A constraint taken out is no longer counted. -/
theorem withdraw (h : t.Counted own) (hwell : t.WellFormed)
    (hnodup : t.constraints.keys.Nodup) (hc : t.constraints.get? id = some c) :
    (t.withdraw id c.tag).Counted own := by
  have ht := hwell.withdrawn hc
  have hsub : ∀ id' c', (t.withdraw id c.tag).constraints.get? id' = some c' →
      t.constraints.get? id' = some c' := by
    intro id' c' hc'
    rw [ht.constraints_eq] at hc'
    exact (Assoc.get?_erase_eq_some_iff.mp hc').2
  have hnodup' : (t.withdraw id c.tag).constraints.keys.Nodup :=
    ht.constraints_eq ▸ Assoc.nodup_keys_erase hnodup id
  refine h.of_counts hnodup' (Nat.le_of_eq ht.entered_eq.symm) (fun v hv => ?_)
    (fun id' c' hc' => h.apart id' c' (hsub id' c' hc'))
    (fun id' c' hc' => h.nodup id' c' (hsub id' c' hc'))
    (fun id' c' hc' => h.folded id' c' (hsub id' c' hc')) fun v x' hx' => ?_
  · obtain ⟨x, hx⟩ := VariablePool.isLive_iff.mp (h.isLive v hv)
    obtain ⟨x', hx', -⟩ := ht.old v x (fun hmem => h.apart id c hc v hmem hv) hx
    exact VariablePool.isLive_iff.mpr ⟨x', hx'⟩
  · obtain ⟨x, hx, hcore⟩ := ht.of_get? hx'
    have hfolds : x'.folds = x.folds - c.tag.folded.count v := (congrArg Variable.folds hcore :)
    have hcount : t.foldCount v = (t.withdraw id c.tag).foldCount v + c.tag.folded.count v := by
      rw [foldCount, foldCount, ht.constraints_eq, Assoc.countP_erase_of_get? hnodup hc,
        (h.nodup id c hc).count]
      simp only [decide_eq_true_eq]
    exact .inr ⟨x, hx, fun _ => hfolds ▸ Nat.sub_le _ _, fun hle => by omega,
      fun _ heq => by omega⟩

variable [Scalar Q]

/-- A new variable is the caller's, and folded nowhere. -/
theorem addVariable (h : t.Counted own) (hwell : t.WellFormed)
    (hnodup : t.constraints.keys.Nodup) (kind : Kind) (stem : Option String) :
    (t.addVariable kind stem).2.Counted fun v => v = (t.addVariable kind stem).1 ∨ own v := by
  have hnew := t.get?_addVariable_fst kind stem
  obtain ⟨label, hget⟩ := t.get?_addVariable kind stem
  have hcons := t.constraints_addVariable kind stem
  have hnext := t.entered_addVariable kind stem
  have hcount : t.foldCount (t.addVariable kind stem).1 = 0 :=
    h.foldCount_eq_zero hnodup (h.not_own_of_get? hnew)
  refine ⟨fun v hv => (t.isLive_addVariable kind stem v).mpr (hv.imp_right (h.isLive v)), ?_,
    hcons ▸ h.nodup, ?_, fun v x hv hx => ?_, fun v x hx => ?_, fun hroom v x hx => ?_⟩
  · rw [hcons]
    rintro id c hc v hv (rfl | hown)
    · exact VariablePool.not_isLive_of_get? hnew (hwell.owned.isLive id c hc _ hv)
    · exact h.apart id c hc v hv hown
  · rw [hcons]
    exact fun id c hc v hv => .inr (h.folded id c hc v hv)
  · rw [hget, if_neg fun heq => hv (.inl heq)] at hx
    exact h.folds_eq_zero v x (fun hown => hv (.inr hown)) hx
  · rw [foldCount_congr hcons]
    rw [hget] at hx
    split at hx
    · rename_i hv
      rw [hv, hcount]
      exact Nat.zero_le _
    · exact h.foldCount_le v x hx
  · rw [foldCount_congr hcons]
    rw [hget] at hx
    split at hx
    · rename_i hv
      obtain rfl := Option.some.inj hx
      rw [hv, hcount]
      rfl
    · exact h.folds_eq (hroom.of_le (Nat.le_of_eq hnext.symm)) v x hx

/-- A quiet change keeps the counts right. -/
theorem quiet (h : t.Counted own) (hnodup : t.constraints.keys.Nodup) (ht : t.Quiet t') :
    t'.Counted own := by
  refine h.of_folds hnodup ht.constraints_eq ht.entered_eq (fun v x hx => ?_) fun v x hnone hx =>
    (ht.new v x hnone hx).folds_eq
  obtain ⟨x', hx', -, -, hfolds, -⟩ := ht.old v x hx
  exact ⟨x', hx', hfolds⟩

variable [Precision K Q]

/-- A constraint that is entered is counted. -/
theorem enter (h : t.Counted own) (hwell : t.WellFormed) (hnodup : t.constraints.keys.Nodup)
    (hc : t.Entered c t') (hvars : c.request.expr.vars.Nodup)
    (hfolded : ∀ v ∈ c.tag.folded, own v) : t'.Counted own := by
  have hlisted : c.tag.folded.Nodup := by
    rw [hc.folded_eq]
    exact hvars.filter _
  have hnodup' : t'.constraints.keys.Nodup :=
    hc.constraints_eq ▸ Assoc.nodup_keys_insert hnodup _ _
  have hle : t.entered ≤ t'.entered := hc.entered_eq ▸ Nat.le_succ _
  have hall : ∀ {p : Constraint K → Prop}, p c →
      (∀ id' c', t.constraints.get? id' = some c' → p c') →
      ∀ id' c', t'.constraints.get? id' = some c' → p c' := by
    intro p hp hold
    rw [hc.constraints_eq]
    exact Assoc.forall_get?_insert_of_forall (p := fun _ => p) hp hold
  refine h.of_counts hnodup' hle (fun v hv => ?_) (hall (fun v hv hmine => ?_) h.apart)
    (hall hlisted h.nodup) (hall hfolded h.folded) fun v x' hx' => ?_
  · obtain ⟨x, hx⟩ := VariablePool.isLive_iff.mp (h.isLive v hv)
    obtain ⟨x', hx', -⟩ := hc.grown.old v x hx
    exact VariablePool.isLive_iff.mpr ⟨x', hx'⟩
  · exact h.not_own_of_get? (hc.fresh v hv) hmine
  · rcases hc.grown.of_get? hx' with ⟨hnone, hplain⟩ | ⟨x, hx, hcore⟩
    · exact .inl ⟨hnone, hplain.folds_eq⟩
    · have hfolds : x'.folds = x.folds + c.tag.folded.count v := (congrArg Variable.folds hcore :)
      have hadded : t'.foldCount v ≤ t.foldCount v + c.tag.folded.count v := by
        rw [hlisted.count, foldCount, foldCount, hc.constraints_eq]
        simpa only [decide_eq_true_eq] using Assoc.countP_insert_le hnodup t.nextConstraint c
          fun e => decide (v ∈ e.2.tag.folded)
      refine .inr ⟨x, hx, fun hv => ?_, fun hkept => by omega, fun hroom heq => ?_⟩
      · rw [hfolds, List.count_eq_zero.mpr fun hmem => hv (hfolded v hmem)]
        exact Nat.le_refl _
      · have hfresh := hwell.get?_nextConstraint (hroom.of_le hle)
        rw [hfolds, heq, hlisted.count, foldCount, foldCount, hc.constraints_eq,
          Assoc.countP_insert_of_get?_eq_none hfresh]
        simp only [decide_eq_true_eq]

end Counted

end Tableau

/-! ### Counts and notes -/

namespace Solver

variable {own : VarId → Prop} {s s' : Solver K Q} {v w : VarId} {id : ConstraintId}
  {c : Constraint K}

/-- A flag leaves idle what is idle. -/
theorem isIdle_modifyVar {f : Variable Q → Variable Q}
    (htableau : s'.tableau = s.tableau.modifyVar v f) (hf : ∀ x, (f x).folds = x.folds)
    (w : VarId) : s'.isIdle w ↔ s.isIdle w := by
  rw [isIdle_iff, isIdle_iff, htableau, Tableau.get?_modifyVar]
  split
  · cases s.tableau.vars.get? w <;> simp [hf]
  · rfl

/-- A new variable was not live. It is fresh, and the others are what they were. -/
theorem get?_declare [Coefficient K] [Scalar Q] (s : Solver K Q) (kind : Kind) (stem : String) :
    s.tableau.vars.get? (s.declare kind stem).1 = none ∧
      ∃ label, ∀ w, (s.declare kind stem).2.tableau.vars.get? w =
        if w = (s.declare kind stem).1 then
          some (Variable.fresh (s.declare kind stem).1 kind label)
        else s.tableau.vars.get? w :=
  let name := if stem = "" then none else some stem
  ⟨s.tableau.get?_addVariable_fst kind name, s.tableau.get?_addVariable kind name⟩

/-- The **books** of a solver are in order if its folds are counted right, the variables that are
noted are the caller's, those that are noted as pinned are flagged so, and those that are not noted
are folded nowhere. -/
structure Booked (own : VarId → Prop) (s : Solver K Q) : Prop where
  counted : s.tableau.Counted own
  noted_own : ∀ v, s.Noted v → own v
  flagged : ∀ v ∈ s.pins.keys, ∀ x, s.tableau.vars.get? v = some x → x.pinned
  idle : ∀ v, ¬s.Noted v → s.isIdle v

namespace Booked

/-- The books stay in order if the notes stay, the flags too, and only what was flagged is folded
in. -/
theorem of_tableau (h : s.Booked own)
    (hpinned : ∀ v x, s.tableau.vars.get? v = some x → x.pinned → v ∈ s.pins.keys)
    (hcounted : s'.tableau.Counted own)
    (hpins : s'.pins = s.pins) (hholds : s'.holds = s.holds)
    (hvars : ∀ v x', own v → s'.tableau.vars.get? v = some x' →
      ∃ x, s.tableau.vars.get? v = some x ∧ x'.pinned = x.pinned ∧
        (x'.folds ≤ x.folds ∨ x.pinned)) : s'.Booked own := by
  refine ⟨hcounted, fun v hv => ?_, fun v hv x' hx' => ?_,
    fun v hv => isIdle_iff.mpr fun x' hx' => ?_⟩
  · rw [Noted, hpins, hholds] at hv
    exact h.noted_own v hv
  · rw [hpins] at hv
    obtain ⟨x, hx, hflag, -⟩ := hvars v x' (h.noted_own v (.inl hv)) hx'
    exact hflag ▸ h.flagged v hv x hx
  · rw [Noted, hpins, hholds] at hv
    by_cases hown : own v
    · obtain ⟨x, hx, -, hle | hflag⟩ := hvars v x' hown hx'
      · exact Nat.le_zero.mp (isIdle_iff.mp (h.idle v hv) x hx ▸ hle)
      · exact absurd (.inl (hpinned v x hx hflag)) hv
    · exact hcounted.folds_eq_zero v x' hown hx'

/-- Where there is nothing, the books are in order. -/
theorem of_nothing (hcons : s.tableau.constraints = [])
    (hvars : ∀ v, s.tableau.vars.get? v = none) (hpins : s.pins = []) (hholds : s.holds = [])
    (hown : ∀ v, ¬own v) : s.Booked own := by
  have hnone : ∀ v x, s.tableau.vars.get? v ≠ some x := fun v x hx => by simp [hvars] at hx
  have hempty : ∀ id c, s.tableau.constraints.get? id ≠ some c := fun id c hc => by
    simp [hcons] at hc
  refine ⟨⟨fun v hv => absurd hv (hown v), fun id c hc => absurd hc (hempty id c),
    fun id c hc => absurd hc (hempty id c), fun id c hc => absurd hc (hempty id c),
    fun v x _ hx => absurd hx (hnone v x), fun v x hx => absurd hx (hnone v x),
    fun _ v x hx => absurd hx (hnone v x)⟩, fun v hv => ?_, fun v _ x hx => absurd hx (hnone v x),
    fun v _ => isIdle_iff.mpr fun x hx => absurd hx (hnone v x)⟩
  simp [Noted, hpins, hholds, Assoc.keys] at hv

variable [Coefficient K]

/-- An idle variable is folded into no constraint. -/
theorem notMem_folded (h : s.Booked own) (hs : s.Annotated) (hidle : s.isIdle v)
    (hc : s.tableau.constraints.get? id = some c) : v ∉ c.tag.folded := by
  intro hmem
  have hlive := h.counted.isLive v (h.counted.folded id c hc v hmem)
  obtain ⟨x, hx⟩ := VariablePool.isLive_iff.mp hlive
  have hpos := (Tableau.foldCount_pos_iff hs.nodup).mpr ⟨id, c, hc, hmem⟩
  have hle := h.counted.foldCount_le v x hx
  rw [isIdle_iff.mp hidle x hx] at hle
  exact Nat.not_lt.mpr hle hpos

/-- What is folded in is noted. -/
theorem noted_of_mem_folded (h : s.Booked own) (hs : s.Annotated)
    (hc : s.tableau.constraints.get? id = some c) (hv : v ∈ c.tag.folded) : s.Noted v := by
  by_contra hnoted
  exact h.notMem_folded hs (h.idle v hnoted) hc hv

/-- The books stay in order where a flag and the notes of one variable change. -/
theorem of_flag (h : s.Booked own) (hs : s.Annotated) {f : Variable Q → Variable Q}
    (hf : ∀ x, (f x).folds = x.folds) (htableau : s'.tableau = s.tableau.modifyVar v f)
    (hpins : ∀ w, w ≠ v → (w ∈ s'.pins.keys ↔ w ∈ s.pins.keys))
    (hholds : ∀ w, w ≠ v → (w ∈ s'.holds.keys ↔ w ∈ s.holds.keys))
    (hown : s'.Noted v → own v) (hflag : v ∈ s'.pins.keys → ∀ x, (f x).pinned)
    (hidle : ¬s'.Noted v → s.isIdle v) : s'.Booked own := by
  have hnoted : ∀ w, w ≠ v → (s'.Noted w ↔ s.Noted w) := fun w hw =>
    or_congr (hpins w hw) (hholds w hw)
  refine ⟨htableau ▸ h.counted.modifyVar hs.nodup v hf, fun w hw => ?_, fun w hw x hx => ?_,
    fun w hw => (isIdle_modifyVar htableau hf w).mpr ?_⟩
  · rcases eq_or_ne w v with rfl | hne
    · exact hown hw
    · exact h.noted_own w ((hnoted w hne).mp hw)
  · rw [htableau, Tableau.get?_modifyVar] at hx
    rcases eq_or_ne w v with rfl | hne
    · rw [if_pos rfl] at hx
      obtain ⟨y, -, rfl⟩ := Option.map_eq_some_iff.mp hx
      exact hflag hw y
    · rw [if_neg hne] at hx
      exact h.flagged w ((hpins w hne).mp hw) x hx
  · rcases eq_or_ne w v with rfl | hne
    · exact hidle hw
    · exact h.idle w fun hnot => hw ((hnoted w hne).mpr hnot)

/-- The books stay in order where a pinned variable without a flag is noted as held. -/
theorem noteHold (h : s.Booked own) (hs : s.Annotated) (hv : v ∈ s.pins.keys) (x : Q)
    (id : ConstraintId) :
    ({ s with tableau := s.tableau.modifyVar v Variable.unpin }.noteHold v x id).Booked own := by
  refine h.of_flag (f := Variable.unpin) (v := v) hs (fun _ => rfl) rfl (fun w hw => ?_)
    (fun w hw => ?_) (fun _ => h.noted_own v (.inl hv)) (fun hmem => ?_) fun hnot => ?_
  · exact Assoc.mem_keys_erase.trans (and_iff_right hw)
  · exact (Assoc.mem_keys_insert _ _ _ _).trans (or_iff_right hw)
  · exact absurd rfl (Assoc.mem_keys_erase.mp hmem).1
  · exact absurd (.inr ((Assoc.mem_keys_insert _ _ _ _).mpr (.inl rfl))) hnot

variable [Scalar Q]

/-- A new variable is the caller's. -/
theorem declare (h : s.Booked own) (hs : s.Annotated) (kind : Kind) (stem : String) :
    (s.declare kind stem).2.Booked fun v => v = (s.declare kind stem).1 ∨ own v := by
  obtain ⟨hnew, label, hget⟩ := s.get?_declare kind stem
  refine ⟨h.counted.addVariable hs.wellFormed hs.nodup kind _,
    fun v hv => .inr (h.noted_own v hv), fun v hv x hx => ?_,
    fun v hv => isIdle_iff.mpr fun x hx => ?_⟩
  · have hne : v ≠ (s.declare kind stem).1 := fun hv' =>
      h.counted.not_own_of_get? hnew (hv' ▸ h.noted_own v (.inl hv))
    rw [hget, if_neg hne] at hx
    exact h.flagged v hv x hx
  · rw [hget] at hx
    split at hx
    · obtain rfl := Option.some.inj hx
      rfl
    · exact isIdle_iff.mp (h.idle v hv) x hx

variable [Precision K Q]

/-- The books stay in order where a constraint is entered. -/
theorem enter (h : s.Booked own) (hwell : s.tableau.WellFormed)
    (hnodup : s.tableau.constraints.keys.Nodup)
    (hpinned : ∀ v x, s.tableau.vars.get? v = some x → x.pinned → v ∈ s.pins.keys)
    (hc : s.tableau.Entered c s'.tableau) (hvars : c.request.expr.vars.Nodup)
    (hpins : s'.pins = s.pins) (hholds : s'.holds = s.holds) : s'.Booked own := by
  have hflag : ∀ v ∈ c.tag.folded, ∃ x, s.tableau.vars.get? v = some x ∧ x.pinned := by
    intro v hv
    rw [hc.folded_eq] at hv
    simpa [Option.any_eq_true] using List.of_mem_filter hv
  have hfolded : ∀ v ∈ c.tag.folded, own v := by
    intro v hv
    obtain ⟨x, hx, hx'⟩ := hflag v hv
    exact h.noted_own v (.inl (hpinned v x hx hx'))
  refine h.of_tableau hpinned (h.counted.enter hwell hnodup hc hvars hfolded) hpins hholds
    ?_
  intro v x' hown hx'
  obtain ⟨x, hx⟩ := VariablePool.isLive_iff.mp (h.counted.isLive v hown)
  obtain ⟨z, hz, hcore⟩ := hc.grown.old v x hx
  obtain rfl : z = x' := Option.some.inj (hz.symm.trans hx')
  refine ⟨x, hx, (congrArg Variable.pinned hcore :), ?_⟩
  have hfolds : z.folds = x.folds + c.tag.folded.count v := (congrArg Variable.folds hcore :)
  by_cases hv : v ∈ c.tag.folded
  · obtain ⟨y, hy, hpin⟩ := hflag v hv
    obtain rfl : x = y := Option.some.inj (hx.symm.trans hy)
    exact .inr hpin
  · rw [List.count_eq_zero.mpr hv] at hfolds
    exact .inl (Nat.le_of_eq hfolds)

/-- A **move** keeps the books in order if no request that it enters names a variable twice, and
what it notes is the caller's. Where a move enters a constraint for what it holds, the note comes
first, and the constraint is entered where the books are in order. -/
theorem move {a : Act K Q} (h : s.Booked own) (hs : s.Annotated) (hmove : s.Move a s')
    (hvars : ∀ request, a = .enter request → request.expr.vars.Nodup)
    (hnote : ∀ v x hidden, a = .note v x hidden → own v) : s'.Booked own := by
  cases hmove with
  | quiet ht hpins hholds =>
      refine h.of_tableau hs.pinned (h.counted.quiet hs.nodup ht) hpins hholds ?_
      intro v x' hown hx'
      obtain ⟨x, hx⟩ := VariablePool.isLive_iff.mp (h.counted.isLive v hown)
      obtain ⟨z, hz, -, hflag, hfolds, -⟩ := ht.old v x hx
      obtain rfl : z = x' := Option.some.inj (hz.symm.trans hx')
      exact ⟨x, hx, hflag, .inl (Nat.le_of_eq hfolds)⟩
  | enter _ hc => exact h.enter hs.wellFormed hs.nodup hs.pinned hc (hvars _ rfl) rfl rfl
  | remove _ hc =>
      refine h.of_tableau hs.pinned (h.counted.withdraw hs.wellFormed hs.nodup hc) rfl rfl ?_
      intro v x' hown hx'
      obtain ⟨x, hx⟩ := VariablePool.isLive_iff.mp (h.counted.isLive v hown)
      obtain ⟨z, hz, hcore⟩ := (hs.wellFormed.withdrawn hc).old v x
        (fun hmem => h.counted.apart _ _ hc v hmem hown) hx
      obtain rfl : z = x' := Option.some.inj (hz.symm.trans hx')
      refine ⟨x, hx, (congrArg Variable.pinned hcore :), .inl ?_⟩
      rw [show z.folds = _ from (congrArg Variable.folds hcore :)]
      exact Nat.sub_le _ _
  | @note v x hidden _ _ hidle _ =>
      exact h.of_flag (v := v) (f := (·.pin x)) hs (fun _ => rfl) rfl
        (fun w hw => (Assoc.mem_keys_insert _ _ _ _).trans (or_iff_right hw)) (fun _ _ => Iff.rfl)
        (fun _ => hnote v x hidden rfl) (fun _ _ => rfl) fun _ => hidle
  | @take v hold x _ hhold _ =>
      have hown : own v := h.noted_own v (.inr (Assoc.mem_keys_of_get? hhold))
      refine h.of_flag (v := v) (f := (·.pin x)) hs (fun _ => rfl) rfl
        (fun w hw => (Assoc.mem_keys_insert _ _ _ _).trans (or_iff_right hw))
        (fun w hw => Assoc.mem_keys_erase.trans (and_iff_right hw)) (fun _ => hown)
        (fun _ _ => rfl) fun hnot => absurd (.inl ?_) hnot
      exact (Assoc.mem_keys_insert _ _ _ _).mpr (.inl rfl)
  | @flag v y hpin _ =>
      exact h.of_flag (v := v) (f := (·.pin y.computed)) hs (fun _ => rfl) rfl
        (fun _ _ => Iff.rfl) (fun _ _ => Iff.rfl) (fun _ => h.noted_own v (.inl hpin))
        (fun _ _ => rfl) fun hnot => absurd (.inl hpin) hnot
  | @free v hidle =>
      refine h.of_flag (v := v) (f := Variable.unpin) hs (fun _ => rfl) rfl
        (fun w hw => Assoc.mem_keys_erase.trans (and_iff_right hw)) (fun _ _ => Iff.rfl)
        (fun hv => h.noted_own v (hv.imp_left fun hmem => (Assoc.mem_keys_erase.mp hmem).2))
        (fun hmem => absurd rfl (Assoc.mem_keys_erase.mp hmem).1) fun hnot => ?_
      by_cases hv : v ∈ s.pins.keys
      · exact hidle hv
      · exact h.idle v fun hv' => hnot (.inr (hv'.resolve_left hv))
  | @drop v hidle =>
      refine ⟨h.counted, fun w hw => ?_, h.flagged, fun w hw => ?_⟩
      · exact h.noted_own w (hw.imp_right fun hmem => (Assoc.mem_keys_erase.mp hmem).2)
      · rcases eq_or_ne w v with rfl | hne
        · exact hidle
        · exact h.idle w fun hw' => hw (hw'.imp_right fun hmem =>
            Assoc.mem_keys_erase.mpr ⟨hne, hmem⟩)
  | keep hpin _ _ => exact h.noteHold hs (Assoc.mem_keys_of_get? hpin) _ _
  | @enterHold v y c t' hpin hy hfolds hc hrequest =>
      have hheld := h.noteHold hs (Assoc.mem_keys_of_get? hpin) y.computed
        s.tableau.nextConstraint
      refine hheld.enter (hs.wellFormed.modifyVar v fun _ => rfl) hs.nodup ?_ hc (hvars _ rfl) rfl
        rfl
      intro w x hx hflag
      exact Assoc.mem_keys_erase.mpr
        ⟨(Tableau.get?_of_pinned_unpin hx hflag).1, (hs.unflag v).pinned w x hx hflag⟩

end Booked

end Solver

/-! ### Requests that name no variable twice -/

section Requests

variable [Coefficient K]

/-- The variables of a request stay distinct where a term is added. -/
theorem Request.nodup_plus {terms : Assoc VarId K} (h : terms.keys.Nodup) (v : VarId) (c : K) :
    (plus terms v c).keys.Nodup := by
  rw [plus]
  cases hx : terms.get? v with
  | none =>
      dsimp only
      split
      · exact h
      · have hinsert := Assoc.nodup_keys_insert h v c
        rwa [Assoc.insert, if_neg (by simp [Assoc.contains, hx])] at hinsert
  | some x =>
      dsimp only
      split
      · exact Assoc.nodup_keys_erase h v
      · exact (Assoc.keys_set terms v (x + c)).symm ▸ h

/-- Adding a term to a request keeps its variables apart. -/
theorem Request.nodup_addTerm [Precision K Q] {r : Request K} (h : r.expr.vars.Nodup) (v : VarId)
    (c : Q) : (r.addTerm v c).expr.vars.Nodup :=
  nodup_plus h v _

/-- A **layout** names no variable twice, as its terms are added one by one. -/
theorem Layout.nodup_request [Scalar Q] [Precision K Q] (layout : Layout Q) (s : Strength) :
    (layout.request s : Request K).expr.vars.Nodup := by
  have hempty : (Request.empty : Request K).expr.vars.Nodup := List.nodup_nil
  have htwo : ∀ (a b : VarId) (x y : Q),
      ((Request.empty.addTerm a x).addTerm b y : Request K).expr.vars.Nodup :=
    fun a b x y => Request.nodup_addTerm (Request.nodup_addTerm hempty a x) b y
  have hfour : ∀ (a b c d : VarId) (x y z w : Q),
      ((((Request.empty.addTerm a x).addTerm b y).addTerm c z).addTerm d w :
        Request K).expr.vars.Nodup :=
    fun a b c d x y z w => Request.nodup_addTerm (Request.nodup_addTerm (htwo a b x y) c z) d w
  cases layout with
  | equality a b margin => exact htwo a b _ _
  | greater a b margin => exact htwo a b _ _
  | lower a b margin => exact htwo a b _ _
  | value a x => exact Request.nodup_addTerm hempty a _
  | centering a b marginAB bias c d marginCD => exact hfour a b c d _ _ _ _
  | ratio a b c d scale => exact hfour a b c d _ _ _ _

end Requests

/-! ### The books of a session -/

namespace Command

/-- The variable that a command pins or unpins. -/
def fixed? : Command K Q → Option VarId
  | .pin v _ | .unpin v => some v
  | _ => none

/-- The request that the caller drew up for a command. -/
def drawn? : Command K Q → Option (Request K)
  | .add request _ => some request
  | _ => none

variable [Coefficient K] [Scalar Q] [Precision K Q] {command : Command K Q} {u s : Solver K Q}

/-- The requests that the moves of a command enter name no variable twice if the caller's does
not. -/
theorem Does.nodup {request : Request K} (h : command.Does u s (.enter request))
    (hdrawn : ∀ request ∈ command.drawn?, request.expr.vars.Nodup) : request.expr.vars.Nodup := by
  rcases h with ⟨relation, hcommand⟩ | ⟨v, x, rfl⟩
  · cases command with
    | add request' relation' =>
        obtain ⟨rfl, -⟩ := Prod.mk.inj (Option.some.inj hcommand)
        exact hdrawn _ rfl
    | arrange layout strength =>
        obtain ⟨rfl, -⟩ := Prod.mk.inj (Option.some.inj hcommand)
        exact layout.nodup_request strength
    | _ => exact absurd hcommand (by simp [request?])
  · exact (Layout.value v x).nodup_request .standard

/-- What the moves of a command note is what it pins. -/
theorem Does.own {own : VarId → Prop} {v : VarId} {x : Q} {hidden : Option ConstraintId}
    (h : command.Does u s (.note v x hidden)) (hfixed : ∀ v ∈ command.fixed?, own v) : own v := by
  obtain ⟨⟨x', rfl⟩, -⟩ := h
  exact hfixed v rfl

end Command

variable [Coefficient K] [Scalar Q] [Precision K Q]

namespace Solver

variable {own : VarId → Prop} {s s' u : Solver K Q} {v : VarId} {command : Command K Q}

/-- Nothing happens where a variable that is not live is pinned or unpinned. -/
theorem perform_of_not_isLive (hv : ¬s.tableau.vars.isLive v) (hcommand : command.fixed? = some v) :
    (s.perform command).2 = s := by
  have hnone := VariablePool.get?_of_not_isLive hv
  cases command with
  | pin w x =>
      obtain rfl : w = v := Option.some.inj hcommand
      simp only [perform, pin, hnone]
  | unpin w =>
      obtain rfl : w = v := Option.some.inj hcommand
      simp only [perform, unpin, hnone]
  | _ => exact absurd hcommand (by simp [Command.fixed?])

namespace Booked

/-- The moves of a command keep the books in order. -/
theorem path (h : s.Booked own) (hs : s.Annotated) (hpath : s.Path (command.Does u) s')
    (hdrawn : ∀ request ∈ command.drawn?, request.expr.vars.Nodup)
    (hfixed : ∀ v ∈ command.fixed?, own v) : s'.Booked own := by
  refine (hpath.keeps (p := fun s => s.Booked own ∧ s.Annotated) (fun s₁ a s₂ hp ha hmove => ?_)
    ⟨h, hs⟩).1
  exact ⟨hp.1.move hp.2 hmove (fun request hreq => (hreq ▸ ha).nodup hdrawn)
    fun v x hidden hnote => (hnote ▸ ha).own hfixed, hp.2.move hmove⟩

end Booked

end Solver

namespace Session

variable {s : Session K Q} {c : Command K Q}

/-- What a command makes of the variables that the caller has created. -/
theorem created_eq (s : Session K Q) (c : Command K Q) : (s.perform c).created =
    match c with
    | .declare kind stem => (s.solver.declare kind stem).1 :: s.created
    | .reset => []
    | _ => s.created := by
  have hlearn : ∀ {α : Type} {f : α → Reply} (o : Except Fault α), (∀ x v, f x ≠ .variable v) →
      c ≠ .reset → (s.learn c (o.map f)).created = s.created := by
    intro α f o hf hc
    cases o with
    | error fault => cases c <;> first | rfl | exact absurd rfl hc
    | ok x =>
        rw [Except.map]
        rcases hx : f x with v | id | -
        · exact absurd hx (hf x v)
        · rfl
        · cases c <;> first | rfl | exact absurd rfl hc
  cases c with
  | declare kind stem => rfl
  | add request relation => exact hlearn _ (by simp) (by simp)
  | arrange layout strength => exact hlearn _ (by simp) (by simp)
  | remove id => exact hlearn _ (by simp) (by simp)
  | pin v x => exact hlearn _ (by simp) (by simp)
  | unpin v => exact hlearn _ (by simp) (by simp)
  | optimize => exact hlearn _ (by simp) (by simp)
  | reset => rfl
  | resetCounters => rfl

/-- A command is **proper** if a live variable that it pins or unpins was created by the caller, and
a request that the caller drew up for it names no variable twice, as one never does that was drawn
up term by term. -/
def Proper (s : Session K Q) (c : Command K Q) : Prop :=
  (∀ v ∈ c.fixed?, s.solver.tableau.vars.isLive v → v ∈ s.created) ∧
    ∀ request ∈ c.drawn?, request.expr.vars.Nodup

instance (s : Session K Q) (c : Command K Q) : Decidable (s.Proper c) :=
  inferInstanceAs (Decidable ((∀ v ∈ c.fixed?, s.solver.tableau.vars.isLive v → v ∈ s.created) ∧
    ∀ request ∈ c.drawn?, request.expr.vars.Nodup))

/-- **What proper commands keep.** It is kept by every new variable, which is the caller's, by a
reset, and by the moves of a command that pins or unpins a variable of the caller's. A command that
fixes a variable that is not live is refused, so that one need not be the caller's. -/
theorem Proper.keeps {p : (VarId → Prop) → Solver K Q → Prop} (hc : s.Proper c)
    (h : p (· ∈ s.created) s.solver) (hs : s.solver.Annotated)
    (hdeclare : ∀ kind stem, c = .declare kind stem →
      p (fun v => v = (s.solver.declare kind stem).1 ∨ v ∈ s.created)
        (s.solver.declare kind stem).2)
    (hreset : c = .reset → p (fun _ => False) s.solver.reset)
    (hpath : s.solver.Path (c.Does s.solver) (s.perform c).solver →
      (∀ v ∈ c.fixed?, v ∈ s.created) → p (· ∈ s.created) (s.perform c).solver) :
    p (· ∈ (s.perform c).created) (s.perform c).solver := by
  have hcreated := s.created_eq c
  split at hcreated
  · rename_i kind stem
    rw [hcreated, show (· ∈ (s.solver.declare kind stem).1 :: s.created) =
      fun v => v = (s.solver.declare kind stem).1 ∨ v ∈ s.created from
        funext fun v => propext List.mem_cons]
    exact hdeclare kind stem rfl
  · rw [hcreated, show (· ∈ ([] : List VarId)) = fun _ => False from
      funext fun v => propext (iff_of_false List.not_mem_nil not_false)]
    exact hreset rfl
  · rename_i hnew hempty
    rw [hcreated]
    refine hs.path_perform (p := p (· ∈ s.created)) c
      (fun kind stem hc => absurd hc (hnew kind stem)) (fun hc => absurd hc hempty) fun hmoves => ?_
    by_cases hfixed : ∀ v ∈ c.fixed?, s.solver.tableau.vars.isLive v
    · exact hpath hmoves fun v hv => hc.1 v hv (hfixed v hv)
    · obtain ⟨v, hv⟩ := not_forall.mp hfixed
      obtain ⟨hv, hdead⟩ := Classical.not_imp.mp hv
      rwa [Solver.perform_of_not_isLive hdead hv]

/-- The **books** are in order in every session whose caller pins and unpins own variables only, and
names no variable twice in a request. -/
theorem Run.booked (h : s.Run Proper) : s.solver.Booked (· ∈ s.created) := by
  induction h with
  | start settings => exact .of_nothing rfl (fun _ => rfl) rfl rfl fun _ => List.not_mem_nil
  | @step s c hrun hc ih =>
      have hs := hrun.reachable.annotated
      refine hc.keeps (p := fun own solver => solver.Booked own) ih hs
        (fun kind stem _ => ih.declare hs kind stem) (fun _ => ?_)
        fun hpath hfixed => ih.path hs hpath hc.2 hfixed
      exact .of_nothing rfl (VariablePool.get?_reset s.solver.tableau.vars) rfl rfl
        fun _ => not_false

end Session

end LexSimplex
