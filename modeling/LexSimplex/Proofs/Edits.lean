import LexSimplex.Proofs.Operations
import LexSimplex.Solver.Session

/-!
# By which edits an operation works

`Operations` says what an operation keeps, whatever it inserts. Some properties are kept by the
insertion of some requests only, and what the solver inserts of its own accord is always a position
for a variable. So it is worth knowing by which edits of the tableau an operation works: a tableau
**leads** to another by insertions of requests that were asked for, removals, flags and counting.

## Main definitions

* `Tableau.Leads`: by which edits a tableau comes from another.
* `Solver.Positions`: the requests that a solver makes of its own accord.
* `Solver.Durable`: a property of tableaux that only requests of the caller's can end.

## Main results

* `Solver.leads_remove`, `Solver.leads_pin`, `Solver.leads_unpin`: the operations work by removals
  and positions.
* `Solver.Durable.perform`: a command keeps what the insertion of its request keeps.
-/

namespace LexSimplex

variable {K Q : Type} [Coefficient K] [Scalar Q] [Precision K Q]

namespace Tableau

/-- A tableau **leads** to another by edits, of which the insertions are of requests that were
`asked` for. -/
inductive Leads (asked : Request K → Relation → Prop) (t : Tableau K Q) : Tableau K Q → Prop
  | refl : Leads asked t t
  | insert {u} (h : Leads asked t u) {request relation} (hasked : asked request relation) :
    Leads asked t (u.insert request relation).2
  | remove {u} (h : Leads asked t u) (id : ConstraintId) : Leads asked t (u.remove id).2
  | pin {u} (h : Leads asked t u) (v : VarId) (x : Q) : Leads asked t (u.modifyVar v (·.pin x))
  | unpin {u} (h : Leads asked t u) (v : VarId) : Leads asked t (u.modifyVar v Variable.unpin)
  | count {u} (h : Leads asked t u) (f : Counters → Counters) : Leads asked t (u.count f)

variable {asked : Request K → Relation → Prop} {t u w : Tableau K Q}

/-- Edits may be joined. -/
theorem Leads.trans (h : Leads asked t u) (h' : Leads asked u w) : Leads asked t w := by
  induction h' with
  | refl => exact h
  | insert _ hasked ih => exact ih.insert hasked
  | remove _ id ih => exact ih.remove id
  | pin _ v x ih => exact ih.pin v x
  | unpin _ v ih => exact ih.unpin v
  | count _ f ih => exact ih.count f

end Tableau

namespace Solver

/-- The requests for **positions** of variables. -/
def Positions (Q : Type) [Scalar Q] [Precision K Q] (request : Request K) (relation : Relation) :
    Prop :=
  ∃ (v : VarId) (x : Q), request = pinRequest v x ∧ relation = .eq

variable {s : Solver K Q}

/-- The request that holds a pinned variable is one for a position. -/
theorem positions_pinRequest (v : VarId) (x : Q) :
    Positions Q (pinRequest v x : Request K) .eq :=
  ⟨v, x, rfl, rfl⟩

/-- Releasing holds removes their constraints. -/
theorem leads_releaseAll (asked : Request K → Relation → Prop) (s : Solver K Q)
    (holds : List (VarId × Hold Q)) :
    Tableau.Leads asked s.tableau (s.releaseAll holds).2.tableau := by
  induction holds generalizing s with
  | nil => exact .refl
  | cons hold rest ih =>
      have hremoved : Tableau.Leads asked s.tableau (s.tableau.remove hold.2.constraint).2 :=
        Tableau.Leads.refl.remove _
      rw [releaseAll]
      dsimp only
      split
      · exact hremoved
      · exact hremoved.trans (ih
          { s with
            tableau := (s.tableau.remove hold.2.constraint).2
            holds := s.holds.erase hold.1 })

/-- A **removal** removes constraints. -/
theorem leads_remove (asked : Request K → Relation → Prop) (s : Solver K Q) (id : ConstraintId) :
    Tableau.Leads asked s.tableau (s.remove id).2.tableau := by
  have hremoved : Tableau.Leads asked s.tableau (s.tableau.remove id).2 :=
    Tableau.Leads.refl.remove id
  rw [remove]
  split
  · rename_i heq
    rwa [heq] at hremoved
  · rename_i heq
    rw [heq] at hremoved
    exact hremoved.trans (leads_releaseAll asked { s with tableau := _, status := .building } _)

/-- Releasing a pin makes no request. -/
theorem leads_releasePin (asked : Request K → Relation → Prop) (s : Solver K Q) (v : VarId) :
    Tableau.Leads asked s.tableau (s.releasePin v).2.tableau := by
  rw [releasePin]
  dsimp only
  split
  · exact Tableau.Leads.refl.unpin v
  · exact (Tableau.Leads.refl.unpin v).remove _

/-- Attaching a pin requests positions only. -/
theorem leads_attachPin (s : Solver K Q) (v : VarId) (x : Q) :
    Tableau.Leads (Positions Q) s.tableau (s.attachPin v x).2.tableau := by
  obtain ⟨htableau, -⟩ := s.tableau_add (pinRequest v x) .eq
  have hadd : Tableau.Leads (Positions Q) s.tableau (s.add (pinRequest v x) .eq).2.tableau :=
    htableau ▸ (Tableau.Leads.refl (t := s.tableau)).insert (positions_pinRequest v x)
  rw [attachPin]
  split
  · split
    · rename_i heq
      rwa [heq] at hadd
    · rename_i heq
      rw [heq] at hadd
      exact hadd.pin v x
  · exact Tableau.Leads.refl.pin v x

/-- Pinning a variable that is folded in makes no request. -/
theorem leads_pinFixed (asked : Request K → Relation → Prop) (s : Solver K Q) (v : VarId)
    (fixed x : Q) : Tableau.Leads asked s.tableau (s.pinFixed v fixed x).2.tableau := by
  have hrefused : Tableau.Leads asked s.tableau (s.tableau.refuse (pinRequest v x) .eq).2 :=
    Tableau.Leads.refl.count fun c => { c with infeasible := c.infeasible + 1 }
  rw [pinFixed]
  split
  · exact hrefused
  · split
    · exact .refl
    · exact Tableau.Leads.refl.pin v x

/-- Pinning a pinned variable again requests positions only. -/
theorem leads_repin (s : Solver K Q) (v : VarId) (previous x : Q) :
    Tableau.Leads (Positions Q) s.tableau (s.repin v previous x).2.tableau := by
  have hreleased := leads_releasePin (Positions Q) s v
  rw [repin]
  split
  · rename_i heq
    rwa [heq] at hreleased
  · rename_i released heq
    rw [heq] at hreleased
    have hattached := hreleased.trans (leads_attachPin released v x)
    split
    · rename_i heq
      rwa [heq] at hattached
    · rename_i attached heq
      rw [heq] at hattached
      have hback := hattached.trans (leads_attachPin attached v previous)
      split
      · rename_i heq
        rwa [heq] at hback
      · rename_i heq
        rwa [heq] at hback

/-- **Pinning** asks for positions. -/
theorem leads_pin (s : Solver K Q) (v : VarId) (x : Q) :
    Tableau.Leads (Positions Q) s.tableau (s.pin v x).2.tableau := by
  rw [pin]
  split
  · exact .refl
  · split
    · exact leads_pinFixed _ s v _ x
    · split
      · exact leads_repin s v _ x
      · exact leads_attachPin s v x

/-- Holding a variable requests positions only. -/
theorem leads_hold (s : Solver K Q) (v : VarId) (x : Q) (hidden : Option ConstraintId) :
    Tableau.Leads (Positions Q) s.tableau (s.hold v x hidden).2.tableau := by
  have hfree : Tableau.Leads (Positions Q) s.tableau (s.tableau.modifyVar v Variable.unpin) :=
    Tableau.Leads.refl.unpin v
  cases hidden with
  | some id => exact hfree
  | none =>
      have hinsert := hfree.insert (positions_pinRequest v x)
      rw [hold]
      split
      · rename_i heq
        rw [heq] at hinsert
        exact hinsert.pin v x
      · rename_i heq
        rwa [heq] at hinsert

/-- **Unpinning** asks for positions, where a variable is held from then on. -/
theorem leads_unpin (s : Solver K Q) (v : VarId) :
    Tableau.Leads (Positions Q) s.tableau (s.unpin v).2.tableau := by
  rw [unpin]
  split
  · exact .refl
  · dsimp only
    split
    · exact leads_releasePin _ { s with status := .building } v
    · split
      · exact leads_hold { s with status := .building } v _ _
      · exact leads_releasePin _ { s with status := .building } v

/-- A property of tableaux is **durable** if everything keeps it that a solver does, but for the
insertion of a request of the caller's. -/
structure Durable (p : Tableau K Q → Prop) : Prop where
  leads : ∀ t u, Tableau.Leads (Positions Q) t u → p t → p u
  addVariable : ∀ t kind stem, p t → p (t.addVariable kind stem).2
  minimise : ∀ t, p t → p (t.minimise .goal).2
  settle : ∀ t, p t → p t.settle
  reset : ∀ t, p t → p t.reset
  resetCounters : ∀ t, p t → p { t with counters := {} }

/-- A **command** keeps a durable property, if the insertion of the request that it makes does. -/
theorem Durable.perform {p : Tableau K Q → Prop} (hp : Durable p) (h : p s.tableau)
    (c : Command K Q)
    (hinsert : ∀ request relation, c.request? = some (request, relation) →
      (s.perform c).1 = (s.tableau.insert request relation).1.map .constraint →
      p (s.tableau.insert request relation).2) : p (s.perform c).2.tableau := by
  have hadd : ∀ request relation, c.request? = some (request, relation) →
      (s.perform c).1 = (s.add request relation).1.map .constraint →
      p (s.add request relation).2.tableau := by
    intro request relation hc hreply
    obtain ⟨htableau, -, -, hresult⟩ := s.tableau_add request relation
    rw [htableau]
    exact hinsert request relation hc (hresult ▸ hreply)
  cases c with
  | declare kind stem => exact hp.addVariable _ kind _ h
  | add request relation => exact hadd _ _ rfl rfl
  | arrange layout strength => exact hadd _ _ rfl rfl
  | remove id => exact hp.leads _ _ (leads_remove _ s id) h
  | pin v x => exact hp.leads _ _ (leads_pin s v x) h
  | unpin v => exact hp.leads _ _ (leads_unpin s v) h
  | optimize =>
      have hcount : p (s.tableau.count fun c => { c with optimize := c.optimize + 1 }) :=
        hp.leads _ _ (Tableau.Leads.refl.count _) h
      exact (s.tableau_optimize (hp.minimise _ hcount) hp.settle).1
  | reset => exact hp.reset _ h
  | resetCounters => exact hp.resetCounters _ h

end Solver

end LexSimplex
