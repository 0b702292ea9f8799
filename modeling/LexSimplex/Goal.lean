import LexSimplex.LinExpr
import LexSimplex.TierVector

/-!
# Goals

A **goal** is an objective to be minimised: a linear expression whose constant and coefficients
are tier vectors. The goal of a solver is the penalty of all violations, written over the
variables that are not basic.

**Term convention.** A goal has no term whose vector is zero; a term that becomes zero is
dropped, the last term taking its place.
-/

namespace LexSimplex

/-- An objective: a constant vector and vectors by variable, in order. -/
structure Goal (K : Type) where
  constant : TierVector K
  terms : Assoc VarId (TierVector K)

namespace Goal

variable {K : Type}

/-- The goal without the term of a variable. -/
def without (g : Goal K) (v : VarId) : Goal K :=
  { g with terms := g.terms.swapErase v }

variable [Coefficient K]

/-- The goal that is zero. -/
def zero : Goal K :=
  ⟨TierVector.zero, []⟩

/-- The vector of a variable, zero without a term. -/
def coefficient (g : Goal K) (v : VarId) : TierVector K :=
  (g.terms.get? v).getD TierVector.zero

/-- The sum `g + factor * vector * v`. -/
def addTerm (g : Goal K) (v : VarId) (vector : TierVector K) (factor : K) : Goal K :=
  let sum := (g.coefficient v).addScaled vector factor
  if sum.isZero then g.without v else { g with terms := g.terms.insert v sum }

/-- The sum `g + factor * vector * e`. -/
def addScaled (g : Goal K) (e : LinExpr K) (vector : TierVector K) (factor : K) : Goal K :=
  e.terms.foldl (fun g term => g.addTerm term.1 vector (factor * term.2))
    { g with constant := g.constant.addScaled vector (factor * e.constant) }

/-- The goal with `v` replaced by `d`. -/
def substitute (g : Goal K) (v : VarId) (d : LinExpr K) : Goal K :=
  match g.terms.get? v with
  | none => g
  | some vector => (g.without v).addScaled d vector 1

/-- The value of an expression as a goal of a single tier. -/
def ofExpr (e : LinExpr K) (s : Strength) : Goal K :=
  e.terms.foldl (fun g term => g.addTerm term.1 (TierVector.unit s) term.2)
    ⟨(TierVector.unit s).scaled e.constant, []⟩

end Goal

end LexSimplex
