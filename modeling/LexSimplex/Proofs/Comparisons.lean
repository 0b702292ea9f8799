import Mathlib.Tactic.Linarith
import LexSimplex.Proofs.Lexicographic

/-!
# The comparison of tier vectors with a tolerance

With a tolerance, numbers that differ by less **tie**, and two vectors are compared at the strongest
tier at which they do not tie. Taken the other way round the comparison comes out reversed, and with
zero it gives the sign. But ties are not transitive. A vector may tie with two others that do not
tie with one another: it **bridges** them. The ends are then told apart at the tier of the bridge,
and each of them is told apart from the middle at a weaker one only, where the order may be the
other way. So three vectors may go round in a circle.

Nothing but a bridge makes this happen, and only one that the weaker tiers put neither above its
lower end nor below its upper one. Where every bridge is put above the one or below the other, the
vectors of a circle tie at every tier. Then the comparison is transitive and sorting works. On any
other set of vectors it is not transitive.

## Main definitions

* `TierVector.TransitiveOn`: being less and being equal are transitive on a set.
* `TierVector.Ties`, `TierVector.Bridges`: how vectors stand to one another at a tolerance.
* `TierVector.Settles`: each bridge is put above its lower end or below its upper one.

## Main results

* `TierVector.allTie_of_circle`: vectors that go round in a circle.
* `TierVector.transitiveOn_iff`: the sets on which the comparison is transitive.
* `TierVector.compare_within_laws`: which laws of an order the comparison obeys, and where.
-/

namespace LexSimplex

namespace TierVector

/-- Being less and being equal are **transitive** on a set of vectors. -/
def TransitiveOn {K : Type} [Coefficient K] (S : Set (TierVector K)) : Prop :=
  ∀ a ∈ S, ∀ b ∈ S, ∀ c ∈ S,
    (a.compare b = .lt → b.compare c = .lt → a.compare c = .lt) ∧
      (a.compare b = .eq → b.compare c = .eq → a.compare c = .eq)

variable {ε : Rat} {a b c : TierVector Rat} {i : Fin 9} {S : Set (TierVector Rat)}

/-! ### Two vectors -/

/-- The comparison of two vectors at a tolerance. -/
def compareAt (ε : Rat) (a b : TierVector Rat) : Ordering :=
  letI := Coefficient.within ε
  a.compare b

/-- Two vectors **tie** at a rank if they differ there by less than the tolerance. -/
def Ties (ε : Rat) (a b : TierVector Rat) (i : Fin 9) : Prop :=
  |a.get (.ofRank i) - b.get (.ofRank i)| < ε

instance (ε : Rat) (a b : TierVector Rat) (i : Fin 9) : Decidable (a.Ties ε b i) :=
  inferInstanceAs (Decidable (|a.get (.ofRank i) - b.get (.ofRank i)| < ε))

/-- Ties go both ways. -/
theorem Ties.symm (h : a.Ties ε b i) : b.Ties ε a i := by
  rwa [Ties, abs_sub_comm]

/-- Where two vectors do not tie, one is below the other by the tolerance or more. -/
theorem below_or_below (h : ¬a.Ties ε b i) :
    a.get (.ofRank i) + ε ≤ b.get (.ofRank i) ∨ b.get (.ofRank i) + ε ≤ a.get (.ofRank i) := by
  rcases le_abs.mp (not_lt.mp h) with hdiff | hdiff
  · exact .inr (by linarith)
  · exact .inl (by linarith)

/-- Of the ranks at which something fails one is the first. -/
theorem exists_first {P : Fin 9 → Prop} (h : ¬∀ i, P i) : ∃ i, (∀ j < i, P j) ∧ ¬P i := by
  obtain ⟨i, hi, hfirst⟩ := wellFounded_lt.has_min {i | ¬P i} (not_forall.mp h)
  exact ⟨i, fun j hj => not_not.mp fun hP => hfirst j hP hj, hi⟩

/-- Vectors that tie at every rank are equal. -/
theorem compareAt_of_ties (h : ∀ i, a.Ties ε b i) : compareAt ε a b = .eq := by
  let _ := Coefficient.within ε
  have hlead : (a.sub b).leading? = .none := by
    refine leading?_eq_none_iff.mpr fun i => ?_
    rw [get_sub]
    exact Coefficient.negligible_within_iff.mpr (h i)
  rw [compareAt, compare, sign, hlead]

/-- The first rank at which two vectors do not tie decides. -/
theorem compareAt_cases (hε : 0 < ε) (hbefore : ∀ j < i, a.Ties ε b j) (hi : ¬a.Ties ε b i) :
    (a.get (.ofRank i) + ε ≤ b.get (.ofRank i) ∧ compareAt ε a b = .lt) ∨
      (b.get (.ofRank i) + ε ≤ a.get (.ofRank i) ∧ compareAt ε a b = .gt) := by
  let _ := Coefficient.within ε
  have hlead : (a.sub b).leading? = some (a.get (.ofRank i) - b.get (.ofRank i)) := by
    refine leading?_eq_some_iff.mpr ⟨i, fun j hj => ?_, ?_, get_sub a b _⟩
    · rw [get_sub]
      exact Coefficient.negligible_within_iff.mpr (hbefore j hj)
    · rw [get_sub]
      exact fun h => hi (Coefficient.negligible_within_iff.mp h)
  have hsign : compareAt ε a b =
      if a.get (.ofRank i) - b.get (.ofRank i) < 0 then .lt else .gt := by
    rw [compareAt, compare, sign, hlead]
  rcases below_or_below hi with hbelow | habove
  · exact .inl ⟨hbelow, hsign.trans (if_pos (by linarith))⟩
  · exact .inr ⟨habove, hsign.trans (if_neg (by linarith))⟩

/-- Of two vectors that tie at the ranks before, one that is not greater is below or ties. -/
theorem below_of_ne_gt (hε : 0 < ε) (hbefore : ∀ j < i, a.Ties ε b j)
    (hab : compareAt ε a b ≠ .gt) (hi : ¬a.Ties ε b i) :
    a.get (.ofRank i) + ε ≤ b.get (.ofRank i) := by
  rcases compareAt_cases hε hbefore hi with ⟨hbelow, -⟩ | ⟨-, hgt⟩
  · exact hbelow
  · exact absurd hgt hab

/-- The comparison taken the other way round comes out reversed. -/
theorem compareAt_swap (hε : 0 < ε) (a b : TierVector Rat) :
    compareAt ε a b = (compareAt ε b a).swap := by
  by_cases hall : ∀ i, a.Ties ε b i
  · rw [compareAt_of_ties hall, compareAt_of_ties fun i => (hall i).symm]
    rfl
  · obtain ⟨i, hbefore, hi⟩ := exists_first hall
    have hback := compareAt_cases hε (fun j hj => (hbefore j hj).symm) fun h => hi h.symm
    rcases compareAt_cases hε hbefore hi with ⟨hbelow, hab⟩ | ⟨habove, hab⟩
    · rcases hback with ⟨habove, -⟩ | ⟨-, hba⟩
      · linarith
      · rw [hab, hba]
        rfl
    · rcases hback with ⟨-, hba⟩ | ⟨hbelow, -⟩
      · rw [hab, hba]
        rfl
      · linarith

/-- Nothing is taken off a vector with zero. -/
theorem compareAt_zero (ε : Rat) (a : TierVector Rat) :
    letI := Coefficient.within ε
    a.compare zero = a.sign := by
  let _ := Coefficient.within ε
  have hsub : a.sub zero = a := ext_get fun s => by
    rw [get_sub]
    exact (congrArg (a.get s - ·) (get_ofFn _ s)).trans (sub_zero (a.get s))
  rw [compare, hsub]

/-- One vector is above another if that is below it. -/
theorem compareAt_eq_gt_iff (hε : 0 < ε) : compareAt ε a b = .gt ↔ compareAt ε b a = .lt := by
  rw [compareAt_swap hε a b, Ordering.swap_eq_gt]

/-! ### Three vectors -/

/-- Three vectors **all tie** at a rank if any two of them do. -/
def AllTie (ε : Rat) (a b c : TierVector Rat) (i : Fin 9) : Prop :=
  a.Ties ε b i ∧ b.Ties ε c i ∧ c.Ties ε a i

instance (ε : Rat) (a b c : TierVector Rat) (i : Fin 9) : Decidable (AllTie ε a b c i) :=
  inferInstanceAs (Decidable (a.Ties ε b i ∧ b.Ties ε c i ∧ c.Ties ε a i))

/-- Three vectors that all tie may be rotated. -/
theorem AllTie.rotate (h : AllTie ε a b c i) : AllTie ε b c a i :=
  ⟨h.2.1, h.2.2, h.1⟩

/-- Three vectors that all tie may be reversed. -/
theorem AllTie.reverse (h : AllTie ε a b c i) : AllTie ε c b a i :=
  ⟨h.2.1.symm, h.1.symm, h.2.2.symm⟩

/-- One vector **bridges** two others if it ties with both at the first rank at which the three do
not all tie, and there the one is below the other by the tolerance or more. -/
def Bridges (ε : Rat) (b a c : TierVector Rat) : Prop :=
  ∃ i, (∀ j < i, AllTie ε a b c j) ∧
    a.Ties ε b i ∧ b.Ties ε c i ∧ a.get (.ofRank i) + ε ≤ c.get (.ofRank i)

instance (ε : Rat) (b a c : TierVector Rat) : Decidable (b.Bridges ε a c) :=
  inferInstanceAs (Decidable (∃ i, (∀ j < i, AllTie ε a b c j) ∧
    a.Ties ε b i ∧ b.Ties ε c i ∧ a.get (.ofRank i) + ε ≤ c.get (.ofRank i)))

/-- The ends of a bridge are told apart where it is. -/
theorem Bridges.compareAt_ends (hε : 0 < ε) (h : b.Bridges ε a c) : compareAt ε a c = .lt := by
  obtain ⟨i, hbefore, -, -, hbelow⟩ := h
  have hi : ¬a.Ties ε c i := fun htie => by
    have hdiff := (abs_lt.mp htie).1
    linarith
  rcases compareAt_cases hε (fun j hj => (hbefore j hj).2.2.symm) hi with
    ⟨-, hac⟩ | ⟨habove, -⟩
  · exact hac
  · linarith

/-- On a set the comparison **settles** bridges if each is put above its lower end or below its
upper one. -/
def Settles (ε : Rat) (S : Set (TierVector Rat)) : Prop :=
  ∀ a ∈ S, ∀ b ∈ S, ∀ c ∈ S, b.Bridges ε a c → compareAt ε a b = .lt ∨ compareAt ε b c = .lt

/-- In a circle it is never one pair alone that does not tie first: the third vector would bridge
it. -/
theorem Settles.not_below (hε : 0 < ε) (hS : Settles ε S) (ha : a ∈ S) (hb : b ∈ S) (hc : c ∈ S)
    (hbc : compareAt ε b c ≠ .gt) (hca : compareAt ε c a ≠ .gt)
    (hbefore : ∀ j < i, AllTie ε a b c j) (htbc : b.Ties ε c i) (htca : c.Ties ε a i) :
    ¬a.get (.ofRank i) + ε ≤ b.get (.ofRank i) := by
  intro hbelow
  have hbridge : c.Bridges ε a b :=
    ⟨i, fun j hj => (hbefore j hj).rotate.reverse, htca.symm, htbc.symm, hbelow⟩
  rcases hS a ha c hc b hb hbridge with hac | hcb
  · exact hca ((compareAt_eq_gt_iff hε).mpr hac)
  · exact hbc ((compareAt_eq_gt_iff hε).mpr hcb)

/-- Vectors that go round in a **circle** tie at every rank, if bridges are settled. At the first
rank at which they do not, one of them would bridge the other two, or they would go up by the
tolerance more often than down. -/
theorem allTie_of_circle (hε : 0 < ε) (hS : Settles ε S) (ha : a ∈ S) (hb : b ∈ S) (hc : c ∈ S)
    (hab : compareAt ε a b ≠ .gt) (hbc : compareAt ε b c ≠ .gt) (hca : compareAt ε c a ≠ .gt) :
    ∀ i, AllTie ε a b c i := by
  by_contra hall
  obtain ⟨i, hbefore, hi⟩ := exists_first hall
  have hupab := below_of_ne_gt hε (fun j hj => (hbefore j hj).1) hab
  have hupbc := below_of_ne_gt hε (fun j hj => (hbefore j hj).2.1) hbc
  have hupca := below_of_ne_gt hε (fun j hj => (hbefore j hj).2.2) hca
  by_cases htab : a.Ties ε b i
  · by_cases htbc : b.Ties ε c i
    · by_cases htca : c.Ties ε a i
      · exact hi ⟨htab, htbc, htca⟩
      · exact hS.not_below hε hc ha hb hab hbc (fun j hj => (hbefore j hj).rotate.rotate)
          htab htbc (hupca htca)
    · by_cases htca : c.Ties ε a i
      · exact hS.not_below hε hb hc ha hca hab (fun j hj => (hbefore j hj).rotate)
          htca htab (hupbc htbc)
      · have hdown := (abs_lt.mp htab).2
        linarith [hupbc htbc, hupca htca]
  · by_cases htbc : b.Ties ε c i
    · have hdown := (abs_lt.mp htbc).2
      by_cases htca : c.Ties ε a i
      · exact hS.not_below hε ha hb hc hbc hca hbefore htbc htca (hupab htab)
      · linarith [hupab htab, hupca htca]
    · by_cases htca : c.Ties ε a i
      · have hdown := (abs_lt.mp htca).2
        linarith [hupab htab, hupbc htbc]
      · linarith [hupab htab, hupbc htbc, hupca htca]

/-! ### Sets of vectors -/

/-- Where bridges are settled, being at most is transitive. If the first were above the third, the
three would go round in a circle. -/
theorem Settles.transCmp (hε : 0 < ε) (hS : Settles ε S) :
    Std.TransCmp fun a b : S => compareAt ε a.1 b.1 where
  eq_swap := compareAt_swap hε _ _
  isLE_trans := by
    rintro ⟨a, ha⟩ ⟨b, hb⟩ ⟨c, hc⟩ hab hbc
    rw [Ordering.isLE_iff_ne_gt] at hab hbc ⊢
    intro hac
    have hca : compareAt ε c a ≠ .gt := by
      rw [(compareAt_eq_gt_iff hε).mp hac]
      exact nofun
    have hties := allTie_of_circle hε hS ha hb hc hab hbc hca
    have heq : compareAt ε a c = .eq := compareAt_of_ties fun i => (hties i).2.2.symm
    exact absurd (heq.symm.trans hac) nofun

/-- The comparison is transitive **exactly where it settles bridges**. Where neither step of a
bridge is below, the way from its upper end over it leads down to its lower end. -/
theorem transitiveOn_iff (hε : 0 < ε) :
    letI := Coefficient.within ε
    TransitiveOn S ↔ Settles ε S := by
  constructor
  · intro h a ha b hb c hc hbridge
    have hac := hbridge.compareAt_ends hε
    cases hab : compareAt ε a b with
    | lt => exact .inl rfl
    | eq =>
        cases hbc : compareAt ε b c with
        | lt => exact .inr rfl
        | eq =>
            have heq := (h a ha b hb c hc).2 hab hbc
            exact absurd (heq.symm.trans hac) nofun
        | gt =>
            have hlt := (h a ha c hc b hb).1 hac ((compareAt_eq_gt_iff hε).mp hbc)
            exact absurd (hab.symm.trans hlt) nofun
    | gt =>
        have hba := (compareAt_eq_gt_iff hε).mp hab
        exact .inr ((h b hb a ha c hc).1 hba hac)
  · intro hS a ha b hb c hc
    have htrans := hS.transCmp hε
    exact ⟨fun hab hbc => htrans.lt_trans (a := ⟨a, ha⟩) (b := ⟨b, hb⟩) (c := ⟨c, hc⟩) hab hbc,
      fun hab hbc => htrans.eq_trans (a := ⟨a, ha⟩) (b := ⟨b, hb⟩) (c := ⟨c, hc⟩) hab hbc⟩

/-- Of two vectors one is at most the other. -/
theorem isLE_or_isLE (hε : 0 < ε) (a b : TierVector Rat) :
    (compareAt ε a b).isLE || (compareAt ε b a).isLE := by
  rw [compareAt_swap hε a b]
  cases compareAt ε b a <;> rfl

/-- Sorting works on a list on whose vectors bridges are settled. -/
theorem Settles.pairwise_mergeSort (hε : 0 < ε) {vs : List (TierVector Rat)}
    (hS : Settles ε {v | v ∈ vs}) :
    (vs.mergeSort fun a b => (compareAt ε a b).isLE).Pairwise
      fun a b => (compareAt ε a b).isLE := by
  let le (a b : {v // v ∈ vs}) : Bool := (compareAt ε a.1 b.1).isLE
  have htrans (a b c : {v // v ∈ vs}) (hab : le a b) (hbc : le b c) : le a c :=
    (hS.transCmp hε).isLE_trans (a := a) (b := b) (c := c) hab hbc
  have hsorted : (vs.attach.mergeSort le).Pairwise fun a b => le a b :=
    List.pairwise_mergeSort htrans (fun a b => isLE_or_isLE hε a.1 b.1) vs.attach
  have hmap : (vs.attach.mergeSort le).map Subtype.val =
      vs.mergeSort fun a b => (compareAt ε a b).isLE := by
    rw [List.map_mergeSort (s := fun a b => (compareAt ε a b).isLE) fun _ _ _ _ => rfl,
      List.attach_map_subtype_val]
  rw [← hmap, List.pairwise_map]
  exact hsorted

/-- Vectors are **spaced** if at each tier any two are equal or the tolerance or more apart. -/
def Spaced (ε : Rat) (S : Set (TierVector Rat)) : Prop :=
  ∀ a ∈ S, ∀ b ∈ S, ∀ s, a.get s = b.get s ∨ ε ≤ |a.get s - b.get s|

/-- Nothing bridges two spaced vectors. -/
theorem Spaced.settles (hε : 0 < ε) (h : Spaced ε S) : Settles ε S := by
  rintro a ha b hb c hc ⟨i, -, hab, hbc, hbelow⟩
  have heqab := (h a ha b hb (.ofRank i)).resolve_right (not_le.mpr hab)
  have heqbc := (h b hb c hc (.ofRank i)).resolve_right (not_le.mpr hbc)
  rw [heqab, heqbc] at hbelow
  linarith

/-- **The comparison at a tolerance.** Taken the other way round it comes out reversed, and with
zero it gives the sign. Being less and being equal are transitive on a set exactly if bridges are
settled there, and so they are on spaced vectors. Where they are, sorting works. -/
theorem compare_within_laws [c : Coefficient Rat] (hc : c = Coefficient.within ε) (hε : 0 < ε) :
    (∀ a b : TierVector Rat, a.compare b = (b.compare a).swap) ∧
      (∀ a : TierVector Rat, a.compare zero = a.sign) ∧
      (∀ S : Set (TierVector Rat), TransitiveOn S ↔ Settles ε S) ∧
      (∀ S : Set (TierVector Rat), Spaced ε S → TransitiveOn S) ∧
      ∀ vs : List (TierVector Rat), TransitiveOn {v | v ∈ vs} →
        (vs.mergeSort fun a b => (a.compare b).isLE).Pairwise fun a b => (a.compare b).isLE := by
  subst hc
  refine ⟨compareAt_swap hε, compareAt_zero ε, fun _ => transitiveOn_iff hε, fun S hS => ?_,
    fun vs hvs => ?_⟩
  · exact (transitiveOn_iff hε).mpr (hS.settles hε)
  · exact ((transitiveOn_iff hε).mp hvs).pairwise_mergeSort hε

/-- A **flight** of vectors for a tolerance of `1e-8`: from each to the next the number at one tier
falls by less than the tolerance, and at a weaker tier it rises by a given number. -/
def flight (rise : Rat) (k : Nat) : TierVector Rat :=
  ofFn fun s =>
    match s with
    | .high => -(k * (6 / 10 ^ 9))
    | .low => k * rise
    | _ => 0

/-- A flight that falls at both tiers is put in order, though its middle bridges its ends. One that
rises at the weaker tier is not. -/
theorem compare_within_laws_of_flight :
    letI := Coefficient.within (1 / 10 ^ 8)
    let falling := (List.range 3).map (flight (-1))
    (flight (-1) 1).Bridges (1 / 10 ^ 8) (flight (-1) 2) (flight (-1) 0) ∧
      TransitiveOn {v | v ∈ falling} ∧
      ((falling.mergeSort fun a b => (a.compare b).isLE).Pairwise
        fun a b => (a.compare b).isLE) ∧
      ¬TransitiveOn {v | v ∈ (List.range 3).map (flight 1)} := by
  let _ := Coefficient.within (1 / 10 ^ 8)
  intro falling
  obtain ⟨-, -, htransitive, -, hsort⟩ := compare_within_laws rfl (by norm_num)
  have hsettles : ∀ a ∈ falling, ∀ b ∈ falling, ∀ c ∈ falling,
      b.Bridges (1 / 10 ^ 8) a c → compareAt (1 / 10 ^ 8) a b = .lt ∨
        compareAt (1 / 10 ^ 8) b c = .lt := by decide +kernel
  have hfalling := (htransitive {v | v ∈ falling}).mpr hsettles
  refine ⟨by decide +kernel, hfalling, hsort falling hfalling, fun hrising => ?_⟩
  have hmem (k : Nat) (hk : k < 3) : flight 1 k ∈ (List.range 3).map (flight 1) :=
    List.mem_map_of_mem (List.mem_range.mpr hk)
  have hsettled := (htransitive _).mp hrising _ (hmem 2 (by decide)) _ (hmem 1 (by decide)) _
    (hmem 0 (by decide)) (by decide +kernel)
  exact absurd hsettled (by decide +kernel)

/-- A flight that rises at the weaker tier goes round in a circle, and one that is level there has
equal neighbours and ends that are not equal. -/
theorem not_transitive_of_flight :
    letI := Coefficient.within (1 / 10 ^ 8)
    ((flight 1 0).compare (flight 1 1) = .lt ∧ (flight 1 1).compare (flight 1 2) = .lt ∧
        (flight 1 0).compare (flight 1 2) = .gt) ∧
      (flight 0 0).compare (flight 0 1) = .eq ∧ (flight 0 1).compare (flight 0 2) = .eq ∧
        (flight 0 0).compare (flight 0 2) = .gt := by
  decide +kernel

end TierVector

end LexSimplex
