import Mathlib.Data.Set.Finite.Lemmas
import LexSimplex.Proofs.Consistency
import LexSimplex.Proofs.Displacement

/-!
# The ratio test with a tolerance

The row that stops a moving variable first is found in one pass, each row being compared with the
best so far. Ratios that differ by less than a tolerance count as equal, and then the handles
decide. Equality up to a tolerance is not transitive: in a chain of rows, each a little later than
the one before and each of a lower handle, every comparison is won by the later row. The choice
drifts away from the least ratio by almost a tolerance for each row that is compared, and it comes
out otherwise where the rows are visited in another order.

How far the choice can drift is the first result. The second is when nothing of this happens. One
blocker **leads** if it beats each of the others in a comparison of the two. If there is one, it is
chosen in every order and is less than the tolerance above the least ratio. If there is none, then
orders exist in which another row is chosen, and orders in which the row that is chosen is above
the least ratio by the tolerance or more. So the pass is as good as its name exactly where one
blocker leads.

## Main definitions

* `Blocker.Beats`: how two blockers compare at a tolerance.
* `Blocker.Leads`: a blocker that beats every other one.
* `Tableau.rescan`: the rows of a variable in another order.

## Main results

* `Blocker.ratio_le_of_pass`, `Blocker.first?_chain`: how far the choice drifts.
* `Blocker.first?_of_leads`: a leader is chosen.
* `Tableau.Linked.ratio_test_sound_iff`: what the ratio test comes to, and when it is sound.
-/

namespace LexSimplex

namespace Blocker

variable {ε : Rat} {b x y : Blocker Rat} {bs cs : List (Blocker Rat)}

/-! ### Two blockers -/

/-- One blocker **beats** another at a tolerance if it stops the variable sooner by the tolerance or
more, or if the two differ by less and it has the lower handle. -/
def Beats (ε : Rat) (b x : Blocker Rat) : Prop :=
  b.ratio + ε ≤ x.ratio ∨ (|b.ratio - x.ratio| < ε ∧ b.basic < x.basic)

instance (ε : Rat) (b x : Blocker Rat) : Decidable (b.Beats ε x) :=
  inferInstanceAs
    (Decidable (b.ratio + ε ≤ x.ratio ∨ (|b.ratio - x.ratio| < ε ∧ b.basic < x.basic)))

/-- The comparison of the ratio test, with a tolerance. -/
theorem sooner_iff (hε : 0 < ε) (b x : Blocker Rat) :
    letI := Coefficient.within ε
    b.sooner x ↔ b.Beats ε x := by
  let _ := Coefficient.within ε
  rw [sooner, Beats]
  by_cases hnear : |b.ratio - x.ratio| < ε
  · have hnot : ¬b.ratio + ε ≤ x.ratio := by
      have hdiff := (abs_lt.mp hnear).1
      linarith
    rw [if_pos (Coefficient.negligible_within_iff.mpr hnear)]
    simp [hnear, hnot]
  · rw [if_neg fun h => hnear (Coefficient.negligible_within_iff.mp h)]
    simp only [hnear, false_and, or_false, decide_eq_true_iff]
    constructor
    · intro hlt
      rw [abs_of_neg (sub_neg.mpr hlt)] at hnear
      linarith
    · intro hle
      linarith

/-- Of two blockers only one beats the other. -/
theorem Beats.asymm (hε : 0 < ε) (h : b.Beats ε x) : ¬x.Beats ε b := by
  rintro (hlate | ⟨hnear, hlt⟩)
  · rcases h with hsoon | ⟨hnear, -⟩
    · linarith
    · have hdiff := (abs_lt.mp hnear).2
      linarith
  · rcases h with hsoon | ⟨-, hlt'⟩
    · have hdiff := (abs_lt.mp hnear).2
      linarith
    · exact absurd hlt (Nat.lt_asymm hlt')

/-- Of two blockers with different handles one beats the other. -/
theorem beats_or_beats (hne : b.basic ≠ x.basic) : b.Beats ε x ∨ x.Beats ε b := by
  by_cases hnear : |b.ratio - x.ratio| < ε
  · have hindex : b.basic.index ≠ x.basic.index := fun heq => hne (congrArg VarId.mk heq)
    rcases Nat.lt_or_gt_of_ne hindex with hlt | hlt
    · exact .inl (.inr ⟨hnear, hlt⟩)
    · exact .inr (.inr ⟨abs_sub_comm b.ratio x.ratio ▸ hnear, hlt⟩)
  · rcases le_abs.mp (not_lt.mp hnear) with hdiff | hdiff
    · exact .inr (.inl (by linarith))
    · exact .inl (.inl (by linarith))

/-- What beats a blocker is less than the tolerance later. -/
theorem Beats.ratio_lt (hε : 0 < ε) (h : b.Beats ε x) : b.ratio < x.ratio + ε := by
  rcases h with hsoon | ⟨hnear, -⟩
  · linarith
  · have hdiff := (abs_lt.mp hnear).2
    linarith

/-- What does not beat a blocker is less than the tolerance sooner. -/
theorem ratio_lt_of_not_beats (h : ¬x.Beats ε b) : b.ratio < x.ratio + ε :=
  lt_of_not_ge fun hsoon => h (.inl hsoon)

/-! ### The pass -/

section Pass

variable (ε)

/-- The choice of one pass over blockers, at a tolerance. -/
def pass (bs : List (Blocker Rat)) : Option (Blocker Rat) :=
  letI := Coefficient.within ε
  first? bs

/-- The choice after one more blocker. -/
def next (best : Option (Blocker Rat)) (b : Blocker Rat) : Option (Blocker Rat) :=
  letI := Coefficient.within ε
  better best b

end Pass

/-- The best so far is given up for what beats it. -/
theorem next_some (hε : 0 < ε) (b x : Blocker Rat) :
    next ε (some x) b = if b.Beats ε x then some b else some x := by
  let _ := Coefficient.within ε
  rw [next, better]
  exact if_congr (sooner_iff hε b x) rfl rfl

/-- A pass over more blockers goes on from the best so far. -/
theorem pass_append (bs cs : List (Blocker Rat)) :
    pass ε (bs ++ cs) = cs.foldl (next ε) (pass ε bs) :=
  List.foldl_append

/-- With each comparison the choice moves up by less than the tolerance. -/
theorem ratio_le_of_foldl (hε : 0 < ε) (h : bs.foldl (next ε) (some y) = some b) :
    b.ratio ≤ y.ratio + bs.length * ε ∧ ∀ x ∈ bs, b.ratio ≤ x.ratio + bs.length * ε := by
  induction bs generalizing y with
  | nil =>
      obtain rfl := Option.some.inj h
      exact ⟨by simp, fun x hx => absurd hx List.not_mem_nil⟩
  | cons z zs ih =>
      obtain ⟨w, hw, hwy, hwz⟩ : ∃ w, next ε (some y) z = some w ∧
          w.ratio ≤ y.ratio + ε ∧ w.ratio ≤ z.ratio + ε := by
        rw [next_some hε]
        by_cases hbeats : z.Beats ε y
        · exact ⟨z, if_pos hbeats, (hbeats.ratio_lt hε).le, by linarith⟩
        · exact ⟨y, if_neg hbeats, by linarith, (ratio_lt_of_not_beats hbeats).le⟩
      rw [List.foldl_cons, hw] at h
      obtain ⟨hbw, hbzs⟩ := ih h
      have hlength : ((z :: zs).length : Rat) * ε = zs.length * ε + ε := by
        rw [List.length_cons]
        push_cast
        ring
      rw [hlength]
      refine ⟨by linarith, fun x hx => ?_⟩
      rcases List.mem_cons.mp hx with rfl | hx
      · linarith
      · have hbx := hbzs x hx
        linarith

/-- The choice is above no blocker by more than the tolerance for each of the others. -/
theorem ratio_le_of_pass (hε : 0 < ε) (h : pass ε bs = some b) (hx : x ∈ bs) :
    b.ratio ≤ x.ratio + (bs.length - 1 : Nat) * ε := by
  cases bs with
  | nil => exact absurd hx List.not_mem_nil
  | cons y ys =>
      have hfold : ys.foldl (next ε) (some y) = some b := h
      obtain ⟨hy, hys⟩ := ratio_le_of_foldl hε hfold
      rcases List.mem_cons.mp hx with rfl | hx
      · exact hy
      · exact hys x hx

/-- A chain of ties: the blocker number `k` is later than the first by so many gaps, and the
handles fall. -/
def link (gap : Rat) (n k : Nat) : Blocker Rat :=
  ⟨k * gap, ⟨n - k⟩, ⟨k⟩⟩

/-- A chain whose gaps are below the tolerance is followed to its end, however long it is. So the
choice may drift by any amount, and by as much for each row as the tolerance does not exclude. -/
theorem first?_chain (hε : 0 < ε) {gap : Rat} (hgap : |gap| < ε) (n : Nat) :
    pass ε ((List.range (n + 1)).map (link gap n)) = some (link gap n n) := by
  suffices hfollowed : ∀ k ≤ n,
      pass ε ((List.range (k + 1)).map (link gap n)) = some (link gap n k) from
    hfollowed n (Nat.le_refl n)
  intro k hk
  induction k with
  | zero => rfl
  | succ k ih =>
      have hbeats : (link gap n (k + 1)).Beats ε (link gap n k) := by
        refine .inr ⟨?_, Nat.sub_lt_sub_left hk (Nat.lt_succ_self k)⟩
        have hdiff : (link gap n (k + 1)).ratio - (link gap n k).ratio = gap := by
          simp only [link]
          push_cast
          ring
        rwa [hdiff]
      rw [List.range_succ, List.map_append, pass_append, ih (Nat.le_of_succ_le hk)]
      exact (next_some hε _ _).trans (if_pos hbeats)

/-! ### Leaders -/

/-- A blocker **leads** if it beats every other one. -/
def Leads (ε : Rat) (bs : List (Blocker Rat)) (b : Blocker Rat) : Prop :=
  b ∈ bs ∧ ∀ x ∈ bs, x.basic ≠ b.basic → b.Beats ε x

/-- A blocker is **near** the first if none stops the variable sooner by the tolerance or more. -/
def Near (ε : Rat) (bs : List (Blocker Rat)) (b : Blocker Rat) : Prop :=
  ∀ x ∈ bs, b.ratio < x.ratio + ε

/-- Which blocker leads does not depend on their order. -/
theorem Leads.perm (h : Leads ε bs b) (hperm : bs.Perm cs) : Leads ε cs b :=
  ⟨hperm.mem_iff.mp h.1, fun x hx => h.2 x (hperm.mem_iff.mpr hx)⟩

/-- A leader is near the first. -/
theorem Leads.near (hε : 0 < ε) (hbs : (bs.map basic).Nodup) (h : Leads ε bs b) :
    Near ε bs b := by
  intro x hx
  by_cases hb : x.basic = b.basic
  · rw [List.inj_on_of_nodup_map hbs hx h.1 hb]
    linarith
  · exact (h.2 x hx hb).ratio_lt hε

/-- A choice that nothing beats is kept. -/
theorem foldl_next_of_not_beats (hε : 0 < ε) (h : ∀ x ∈ bs, ¬x.Beats ε b) :
    bs.foldl (next ε) (some b) = some b := by
  induction bs with
  | nil => rfl
  | cons x xs ih =>
      rw [List.foldl_cons, next_some hε, if_neg (h x List.mem_cons_self)]
      exact ih fun y hy => h y (List.mem_cons_of_mem x hy)

/-- What a pass ends with is one of the blockers. -/
theorem mem_of_pass (h : pass ε bs = some b) : b ∈ bs :=
  letI := Coefficient.within ε
  mem_of_first?_eq_some (K := Rat) h

/-- A **leader** is chosen, in whatever order the blockers are visited. -/
theorem first?_of_leads (hε : 0 < ε) (hbs : (bs.map basic).Nodup) (h : Leads ε bs b) :
    pass ε bs = some b := by
  obtain ⟨before, after, rfl⟩ := List.append_of_mem h.1
  rw [List.map_append, List.map_cons] at hbs
  obtain ⟨-, hafter, hapart⟩ := List.nodup_append.mp hbs
  have hwins : ∀ x ∈ before ++ after, b.Beats ε x := by
    intro x hx
    refine h.2 x (List.mem_append.mpr ?_) ?_
    · exact (List.mem_append.mp hx).imp_right (List.mem_cons_of_mem b)
    · rcases List.mem_append.mp hx with hx | hx
      · exact hapart _ (List.mem_map_of_mem hx) _ List.mem_cons_self
      · intro heq
        exact (List.nodup_cons.mp hafter).1 (heq ▸ List.mem_map_of_mem hx)
  have hreached : next ε (pass ε before) b = some b := by
    cases hbest : pass ε before with
    | none => rfl
    | some x =>
        rw [next_some hε, if_pos]
        exact hwins x (List.mem_append_left after (mem_of_pass hbest))
  rw [pass_append, List.foldl_cons, hreached]
  exact foldl_next_of_not_beats hε fun x hx =>
    (hwins x (List.mem_append_right before hx)).asymm hε

/-- Where the last two blockers are such that the last beats the other, the other is not chosen. The
choice is the last, or one that the other does not beat. -/
theorem pass_last_two (hε : 0 < ε) (hbeats : y.Beats ε b) (rest : List (Blocker Rat)) :
    ∃ z, pass ε (rest ++ [b, y]) = some z ∧ (z = y ∨ (z ∈ rest ∧ ¬b.Beats ε z)) := by
  rw [pass_append, List.foldl_cons, List.foldl_cons, List.foldl_nil]
  cases hbest : pass ε rest with
  | none => exact ⟨y, (next_some hε y b).trans (if_pos hbeats), .inl rfl⟩
  | some x =>
      rw [next_some hε b x]
      by_cases hbx : b.Beats ε x
      · rw [if_pos hbx, next_some hε, if_pos hbeats]
        exact ⟨y, rfl, .inl rfl⟩
      · rw [if_neg hbx, next_some hε]
        by_cases hyx : y.Beats ε x
        · exact ⟨y, if_pos hyx, .inl rfl⟩
        · exact ⟨x, if_neg hyx, .inr ⟨mem_of_pass hbest, hbx⟩⟩

/-- Where none leads, each blocker is beaten by another. -/
theorem exists_beats (hnone : ¬∃ b, Leads ε bs b) (hb : b ∈ bs) :
    ∃ y ∈ bs, y.basic ≠ b.basic ∧ y.Beats ε b := by
  by_contra hnot
  refine hnone ⟨b, hb, fun x hx hne => ?_⟩
  rcases beats_or_beats (ε := ε) hne with hbeats | hbeats
  · exact absurd ⟨x, hx, hne, hbeats⟩ hnot
  · exact hbeats

/-- Of the blockers that are near the first, one has the lowest handle. It beats every other of
them, and what beats it is not near. -/
theorem exists_lowest_near (hε : 0 < ε) (hne : bs ≠ []) : ∃ w ∈ bs, Near ε bs w ∧
    (∀ z ∈ bs, z.basic ≠ w.basic → ¬w.Beats ε z → ¬Near ε bs z) ∧
    ∀ z ∈ bs, z.Beats ε w → ¬Near ε bs z := by
  have hfinite : {b | b ∈ bs}.Finite := bs.finite_toSet
  obtain ⟨least, hleast, hmin⟩ := Set.exists_min_image _ (fun b : Blocker Rat => b.ratio) hfinite
    (List.exists_mem_of_ne_nil bs hne)
  have hnear : Near ε bs least := fun x hx => by
    have hle := hmin x hx
    linarith
  obtain ⟨w, ⟨hw, hwnear⟩, hlowest⟩ :=
    Set.exists_min_image {b | b ∈ bs ∧ Near ε bs b} (fun b : Blocker Rat => b.basic.index)
      (hfinite.subset fun _ hb => hb.1) ⟨least, hleast, hnear⟩
  have hband : ∀ z ∈ bs, Near ε bs z → |w.ratio - z.ratio| < ε := by
    intro z hz hznear
    have hwz := hwnear z hz
    have hzw := hznear w hw
    exact abs_lt.mpr ⟨by linarith, by linarith⟩
  refine ⟨w, hw, hwnear, fun z hz hne hnot hznear => hnot (.inr ⟨hband z hz hznear, ?_⟩),
    fun z hz hbeats hznear => ?_⟩
  · have hindex : w.basic.index ≠ z.basic.index := fun heq => hne (congrArg VarId.mk heq.symm)
    exact Nat.lt_of_le_of_ne (hlowest z ⟨hz, hznear⟩) hindex
  · rcases hbeats with hsoon | ⟨-, hlt⟩
    · have hwz := hwnear z hz
      linarith
    · exact absurd hlt (Nat.not_lt.mpr (hlowest z ⟨hz, hznear⟩))

end Blocker

/-! ### The rows of a variable in another order -/

namespace Tableau

section Order

variable {K Q : Type} {t : Tableau K Q} {out : Option RowId} {v : VarId} {d : Direction}
  {ids : List RowId}

/-- The tableau in which a variable lists its rows in another order. -/
def rescan (t : Tableau K Q) (v : VarId) (ids : List RowId) : Tableau K Q :=
  t.modifyVar v fun x => { x with refs := ids }

/-- The rows of a variable are then visited in the order given. -/
theorem refs_rescan (hlive : t.vars.isLive v) (ids : List RowId) :
    (t.rescan v ids).refs v = ids := by
  obtain ⟨x, hx⟩ := VariablePool.isLive_iff.mp hlive
  have hget : (t.rescan v ids).vars.get? v = _ :=
    VariablePool.get?_modify t.vars v (fun x => { x with refs := ids }) v
  rw [refs, hget, if_pos rfl, hx]
  rfl

/-- Visiting rows in another order leaves the kinds. -/
theorem kind_rescan (t : Tableau K Q) (v : VarId) (ids : List RowId) (w : VarId) :
    (t.rescan v ids).kind w = t.kind w := by
  have hget : (t.rescan v ids).vars.get? w = _ :=
    VariablePool.get?_modify t.vars v (fun x => { x with refs := ids }) w
  rw [kind, kind, hget]
  by_cases hw : w = v
  · rw [if_pos hw, Option.map_map]
    rfl
  · rw [if_neg hw]

variable [Coefficient K]

/-- How the row with a handle stops a variable. -/
def blockerAt? (t : Tableau K Q) (v : VarId) (d : Direction) (id : RowId) :
    Option (Blocker K) :=
  (t.row? id).bind (t.blocker? v d)

/-- The blockers are found in the order in which the rows of the variable are visited. -/
theorem blockers_eq (t : Tableau K Q) (v : VarId) (d : Direction) :
    t.blockers v d = (t.refs v).filterMap (t.blockerAt? v d) :=
  List.filterMap_filterMap

/-- Visiting the rows in another order finds the blockers in that order. -/
theorem blockers_rescan (hlive : t.vars.isLive v) (ids : List RowId) :
    (t.rescan v ids).blockers v d = ids.filterMap (t.blockerAt? v d) := by
  have hblocker : (t.rescan v ids).blockerAt? v d = t.blockerAt? v d := by
    funext id
    refine congrArg (Option.bind (t.row? id)) (funext fun r => ?_)
    rw [blocker?, blocker?, kind_rescan]
  rw [blockers_eq, refs_rescan hlive, hblocker]

/-- A variable that something blocks is live. -/
theorem isLive_of_blockers_ne_nil (h : t.blockers v d ≠ []) : t.vars.isLive v := by
  by_contra hdead
  refine h ?_
  rw [blockers_eq, refs, VariablePool.get?_of_not_isLive hdead]
  rfl

/-- A blocker says which row it is and which variable that defines. -/
theorem eq_of_blocker? {r : Row K} {b : Blocker K} (h : t.blocker? v d r = some b) :
    b.row = r.id ∧ b.basic = r.basic := by
  rw [blocker?] at h
  split at h
  · exact absurd h (by simp)
  · obtain rfl := Option.some.inj h
    exact ⟨rfl, rfl⟩
  all_goals
    split at h
    · obtain rfl := Option.some.inj h
      exact ⟨rfl, rfl⟩
    · exact absurd h (by simp)

/-- A blocker is found under the handle of its row. -/
theorem Linked.exists_of_blockerAt? (hl : t.Linked out) {id : RowId} {b : Blocker K}
    (h : t.blockerAt? v d id = some b) :
    b.row = id ∧ ∃ r ∈ t.rows, r.id = id ∧ b.basic = r.basic := by
  obtain ⟨r, hr, hb⟩ := Option.bind_eq_some_iff.mp h
  obtain ⟨hrt, hid⟩ := hl.row?_eq_some_iff.mp hr
  obtain ⟨hrow, hbasic⟩ := eq_of_blocker? hb
  exact ⟨hrow.trans hid, r, hrt, hid, hbasic⟩

/-- A blocker is found again at its row. -/
theorem Linked.blockerAt?_row (hl : t.Linked out) {b : Blocker K} (hb : b ∈ t.blockers v d) :
    b.row ∈ t.refs v ∧ t.blockerAt? v d b.row = some b := by
  rw [blockers_eq] at hb
  obtain ⟨id, hid, hat⟩ := List.mem_filterMap.mp hb
  obtain ⟨rfl, -⟩ := hl.exists_of_blockerAt? hat
  exact ⟨hid, hat⟩

/-- Blockers have different handles. -/
theorem Linked.nodup_basic_blockers (hl : t.Linked out) (v : VarId) (d : Direction) :
    ((t.blockers v d).map Blocker.basic).Nodup := by
  rw [blockers_eq, List.map_filterMap]
  refine (hl.nodup_refs v).filterMap fun id id' w hw hw' => ?_
  obtain ⟨b, hb, rfl⟩ := Option.map_eq_some_iff.mp hw
  obtain ⟨b', hb', hsame⟩ := Option.map_eq_some_iff.mp hw'
  obtain ⟨-, r, hr, rfl, hbr⟩ := hl.exists_of_blockerAt? hb
  obtain ⟨-, r', hr', rfl, hbr'⟩ := hl.exists_of_blockerAt? hb'
  exact congrArg Row.id (hl.eq_of_basic_eq hr hr' (hbr.symm.trans (hsame.symm.trans hbr')))

/-- In another order there are the same blockers. -/
theorem blockers_rescan_perm (hlive : t.vars.isLive v) (hids : ids.Perm (t.refs v)) :
    ((t.rescan v ids).blockers v d).Perm (t.blockers v d) := by
  rw [blockers_rescan hlive, blockers_eq]
  exact hids.filterMap _

/-- Any two blockers may be visited last. -/
theorem Linked.exists_rescan (hl : t.Linked out) {b y : Blocker K} (hb : b ∈ t.blockers v d)
    (hy : y ∈ t.blockers v d) (hne : y.basic ≠ b.basic) : ∃ ids rest, ids.Perm (t.refs v) ∧
      (t.rescan v ids).blockers v d = rest ++ [b, y] := by
  obtain ⟨hbrefs, hbat⟩ := hl.blockerAt?_row hb
  obtain ⟨hyrefs, hyat⟩ := hl.blockerAt?_row hy
  have hrow : y.row ≠ b.row := by
    intro heq
    rw [heq, hbat] at hyat
    exact hne (congrArg Blocker.basic (Option.some.inj hyat).symm)
  have hlive : t.vars.isLive v := isLive_of_blockers_ne_nil (List.ne_nil_of_mem hb)
  refine ⟨((t.refs v).erase b.row).erase y.row ++ [b.row, y.row],
    (((t.refs v).erase b.row).erase y.row).filterMap (t.blockerAt? v d), ?_, ?_⟩
  · have hyleft : y.row ∈ (t.refs v).erase b.row := (List.mem_erase_of_ne hrow).mpr hyrefs
    refine List.perm_append_comm.trans ?_
    exact (((List.perm_cons_erase hyleft).symm.cons b.row).trans
      (List.perm_cons_erase hbrefs).symm)
  · rw [blockers_rescan hlive, List.filterMap_append]
    simp only [List.filterMap_cons, List.filterMap_nil, hbat, hyat]

/-- Blockers of one row are the same. -/
theorem Linked.eq_of_row_eq (hl : t.Linked out) {b y : Blocker K} (hb : b ∈ t.blockers v d)
    (hy : y ∈ t.blockers v d) (heq : b.row = y.row) : b = y := by
  have hbat := (hl.blockerAt?_row hb).2
  rw [heq, (hl.blockerAt?_row hy).2] at hbat
  exact (Option.some.inj hbat).symm

end Order

/-! ### The ratio test -/

section Tolerance

open Blocker

variable {ε : Rat} [c : Coefficient Rat] {t : Tableau Rat Rat} {out : Option RowId} {v : VarId}
  {d : Direction} {b y : Blocker Rat}

/-- The row that is chosen is the one of the choice of the pass. -/
theorem leaving?_eq (hc : c = Coefficient.within ε) (t : Tableau Rat Rat) (v : VarId)
    (d : Direction) : t.leaving? v d = (pass ε (t.blockers v d)).map row := by
  subst hc
  rfl

/-- A leader is chosen in every order of the rows. -/
theorem Linked.leaving?_of_leads (hc : c = Coefficient.within ε) (hε : 0 < ε) (hl : t.Linked out)
    (hb : Blocker.Leads ε (t.blockers v d) b) {ids : List RowId} (hids : ids.Perm (t.refs v)) :
    (t.rescan v ids).leaving? v d = some b.row := by
  have hlive := isLive_of_blockers_ne_nil (List.ne_nil_of_mem hb.1)
  have horder := (blockers_rescan_perm (d := d) hlive hids).symm
  have hnodup := (horder.map Blocker.basic).nodup_iff.mp (hl.nodup_basic_blockers v d)
  rw [leaving?_eq hc, first?_of_leads hε hnodup (hb.perm horder), Option.map_some]

/-- The blocker of the chosen row. -/
theorem exists_pass_of_blockers_ne_nil (hc : c = Coefficient.within ε)
    (hne : t.blockers v d ≠ []) : ∃ b ∈ t.blockers v d,
      pass ε (t.blockers v d) = some b ∧ t.leaving? v d = some b.row := by
  obtain ⟨b, hb⟩ : ∃ b, pass ε (t.blockers v d) = some b := by
    let _ := Coefficient.within ε
    exact Option.ne_none_iff_exists'.mp fun hnone => hne (first?_eq_none_iff.mp hnone)
  exact ⟨b, mem_of_pass hb, hb, by rw [leaving?_eq hc, hb, Option.map_some]⟩

/-- A blocker that is beaten is not chosen in the order in which it is visited before the last, and
the one that beats it last. -/
theorem Linked.exists_order (hc : c = Coefficient.within ε) (hε : 0 < ε) (hl : t.Linked out)
    (hb : b ∈ t.blockers v d) (hy : y ∈ t.blockers v d) (hyb : y.basic ≠ b.basic)
    (hbeats : y.Beats ε b) : ∃ ids, ids.Perm (t.refs v) ∧ ∃ z ∈ t.blockers v d,
      z.basic ≠ b.basic ∧ (z = y ∨ ¬b.Beats ε z) ∧
        (t.rescan v ids).leaving? v d = some z.row := by
  obtain ⟨ids, rest, hids, hrest⟩ := hl.exists_rescan hb hy hyb
  obtain ⟨z, hz, hcases⟩ := pass_last_two hε hbeats rest
  have hlive := isLive_of_blockers_ne_nil (List.ne_nil_of_mem hb)
  have horder := blockers_rescan_perm (d := d) hlive hids
  rw [hrest] at horder
  refine ⟨ids, hids, z, horder.mem_iff.mp (mem_of_pass hz), ?_, hcases.imp_right And.right, ?_⟩
  · rcases hcases with rfl | ⟨hzrest, -⟩
    · exact hyb
    · have hnodup := (horder.map Blocker.basic).nodup_iff.mpr (hl.nodup_basic_blockers v d)
      rw [List.map_append] at hnodup
      exact (List.nodup_append.mp hnodup).2.2 _ (List.mem_map_of_mem hzrest) _
        List.mem_cons_self
  · rw [leaving?_eq hc, hrest, hz, Option.map_some]

/-- **The ratio test** at a tolerance, for a variable that some row stops. A row is chosen, and its
ratio is above no other by more than the tolerance for each further row. The following are
equivalent: one blocker leads; the same row is chosen in every order of the variable's rows; the row
that is chosen is less than the tolerance above every other in every order. A leader is chosen. What
beats the chosen blocker may be visited after it; so may what beats the lowest of those that are
near, since that is not near itself. -/
theorem Linked.ratio_test_sound_iff (hc : c = Coefficient.within ε) (hε : 0 < ε)
    (hl : t.Linked out) (v : VarId) (d : Direction) (hne : t.blockers v d ≠ []) :
    (∃ b ∈ t.blockers v d, t.leaving? v d = some b.row ∧
        ∀ x ∈ t.blockers v d, b.ratio ≤ x.ratio + ((t.blockers v d).length - 1 : Nat) * ε) ∧
      ((∀ ids, ids.Perm (t.refs v) → (t.rescan v ids).leaving? v d = t.leaving? v d) ↔
        ∃ b, Blocker.Leads ε (t.blockers v d) b) ∧
      ((∀ ids, ids.Perm (t.refs v) → ∃ b ∈ t.blockers v d,
          (t.rescan v ids).leaving? v d = some b.row ∧
            ∀ x ∈ t.blockers v d, b.ratio < x.ratio + ε) ↔
        ∃ b, Blocker.Leads ε (t.blockers v d) b) ∧
      ∀ b, Blocker.Leads ε (t.blockers v d) b → t.leaving? v d = some b.row := by
  have hnodup := hl.nodup_basic_blockers v d
  obtain ⟨x, hx, hpass, hleave⟩ := exists_pass_of_blockers_ne_nil hc hne
  have hleads : ∀ b, Blocker.Leads ε (t.blockers v d) b → t.leaving? v d = some b.row := by
    intro b hb
    rw [leaving?_eq hc, first?_of_leads hε hnodup hb, Option.map_some]
  refine ⟨⟨x, hx, hleave, fun z hz => ratio_le_of_pass hε hpass hz⟩, ⟨fun hsame => ?_, ?_⟩,
    ⟨fun hclose => ?_, ?_⟩, hleads⟩
  · by_contra hnone
    obtain ⟨y, hy, hyx, hbeats⟩ := exists_beats hnone hx
    obtain ⟨ids, hids, z, hz, hzx, -, horder⟩ := hl.exists_order hc hε hx hy hyx hbeats
    rw [hsame ids hids, hleave] at horder
    exact hzx (congrArg Blocker.basic (hl.eq_of_row_eq hz hx (Option.some.inj horder).symm))
  · rintro ⟨b, hb⟩ ids hids
    rw [hl.leaving?_of_leads hc hε hb hids, hleads b hb]
  · by_contra hnone
    obtain ⟨w, hw, -, hunbeaten, hbeating⟩ := exists_lowest_near hε hne
    obtain ⟨y, hy, hyw, hbeats⟩ := exists_beats hnone hw
    obtain ⟨ids, hids, z, hz, hzw, hcases, horder⟩ := hl.exists_order hc hε hw hy hyw hbeats
    obtain ⟨b, hb, hchosen, hnear⟩ := hclose ids hids
    obtain rfl := hl.eq_of_row_eq hz hb (Option.some.inj (horder.symm.trans hchosen))
    rcases hcases with rfl | hnot
    · exact hbeating z hz hbeats hnear
    · exact hunbeaten z hz hzw hnot hnear
  · rintro ⟨b, hb⟩ ids hids
    exact ⟨b, hb.1, hl.leaving?_of_leads hc hε hb hids, hb.near hε hnodup⟩

end Tolerance

end Tableau

namespace Solver

/-- A solver in which a position is at most three numbers that are less than a tolerance of `1e-8`
apart from one to the next, and more than that from the first to the last. The last was removed and
added again, so that its slack has the lowest handle and its row comes after the others. The
position should be three. -/
def chained : Solver Rat Rat :=
  letI := Coefficient.within (1 / 10 ^ 8)
  (empty {}).run
    [.declare .external "x", .add (pinRequest ⟨0⟩ (0 : Rat)) .ge,
      .add (pinRequest ⟨0⟩ (1 + 15 / 10 ^ 9 : Rat)) .le,
      .add (pinRequest ⟨0⟩ (1 + 75 / 10 ^ 10 : Rat)) .le,
      .add (pinRequest ⟨0⟩ (1 : Rat)) .le, .remove ⟨1⟩,
      .add (pinRequest ⟨0⟩ (1 + 15 / 10 ^ 9 : Rat)) .le,
      .arrange (.value ⟨0⟩ 3) .medium]

/-- The position moves up, and the row that is chosen to stop it is the one of the last number,
which is above the first by more than the tolerance. No blocker leads, so another row is chosen in
another order. -/
theorem ratio_test_sound_iff_of_chained :
    letI := Coefficient.within (1 / 10 ^ 8)
    let t := chained.tableau
    t.entering? .goal = some (⟨1⟩, .up) ∧
      ((t.blockers ⟨1⟩ .up).map fun b => (b.ratio, b.basic, b.row)) =
        [(1, ⟨4⟩, ⟨3⟩), (1 + 75 / 10 ^ 10, ⟨3⟩, ⟨2⟩), (1 + 15 / 10 ^ 9, ⟨2⟩, ⟨1⟩), (3, ⟨6⟩, ⟨4⟩)] ∧
      t.leaving? ⟨1⟩ .up = some ⟨1⟩ ∧
      ∃ ids, ids.Perm (t.refs ⟨1⟩) ∧ (t.rescan ⟨1⟩ ids).leaving? ⟨1⟩ .up ≠ some ⟨1⟩ := by
  let _ := Coefficient.within (1 / 10 ^ 8)
  intro t
  have hreachable : chained.Reachable := ⟨_, _, rfl⟩
  have hlinked : t.Linked none := hreachable.consistent.linked
  have hnone : ¬∃ b, Blocker.Leads (1 / 10 ^ 8) (t.blockers ⟨1⟩ .up) b := by
    have hbeaten : ∀ b ∈ t.blockers ⟨1⟩ .up, ∃ x ∈ t.blockers ⟨1⟩ .up,
        x.basic ≠ b.basic ∧ ¬b.Beats (1 / 10 ^ 8) x := by decide +kernel
    rintro ⟨b, hb, hbeats⟩
    obtain ⟨x, hx, hne, hnot⟩ := hbeaten b hb
    exact hnot (hbeats x hx hne)
  have hleave : t.leaving? ⟨1⟩ .up = some ⟨1⟩ := by decide +kernel
  obtain ⟨-, horder, -⟩ :=
    Tableau.Linked.ratio_test_sound_iff rfl (by norm_num) hlinked ⟨1⟩ .up (by decide +kernel)
  refine ⟨by decide +kernel, by decide +kernel, hleave, ?_⟩
  by_contra hall
  refine hnone (horder.mp fun ids hids => ?_)
  by_contra hother
  exact hall ⟨ids, hids, fun hsame => hother (hsame.trans hleave.symm)⟩

end Solver

end LexSimplex
