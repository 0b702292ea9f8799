/-!
# Strengths

A constraint's **strength** says how much it matters. Strengths are tiers, not weights: the
least violation of a stronger tier outweighs any violation of the weaker ones. Two tiers are
**hard**, and their constraints are never violated at all.
-/

namespace LexSimplex

/-- The tiers, weakest first. -/
inductive Strength where
  | none
  | low
  | medium
  | high
  | highest
  | equality
  | barrier
  | centering
  | fixed
  deriving DecidableEq

namespace Strength

/-- Every tier, weakest first. -/
def all : List Strength :=
  [.none, .low, .medium, .high, .highest, .equality, .barrier, .centering, .fixed]

/-- The number of a tier, from zero for the weakest. -/
def tier : Strength → Nat
  | .none => 0
  | .low => 1
  | .medium => 2
  | .high => 3
  | .highest => 4
  | .equality => 5
  | .barrier => 6
  | .centering => 7
  | .fixed => 8

/-- The tier with a number. -/
def ofTier? (n : Nat) : Option Strength :=
  all[n]?

/-- Stronger tiers come later. -/
instance : Ord Strength where
  compare a b := compare a.tier b.tier

/-- Constraints of a **hard** tier hold in every solution. -/
def hard : Strength → Bool
  | .equality | .fixed => true
  | _ => false

/-- The strength of a constraint that names none. -/
def standard : Strength := .fixed

/-- The word for a tier. -/
def name : Strength → String
  | .none => "none"
  | .low => "low"
  | .medium => "medium"
  | .high => "high"
  | .highest => "highest"
  | .equality => "equality"
  | .barrier => "barrier"
  | .centering => "centering"
  | .fixed => "fixed"

end Strength

end LexSimplex
