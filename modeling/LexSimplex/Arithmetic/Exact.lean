import LexSimplex.Arithmetic

/-!
# Exact arithmetic

Rational numbers as coefficients and as quantities: nothing is rounded, and what the theory of
the simplex method says of a tableau can be said of this one without an error term.

The instances in scope take only zero for negligible. `Coefficient.within ε` is the same
arithmetic with a tolerance, for statements about what a tolerance does to comparisons.
-/

namespace LexSimplex

/-- A rational is written as an integer, or as a fraction in lowest terms. -/
def rationalText (q : Rat) : String :=
  if q.den = 1 then toString q.num else toString q.num ++ "/" ++ toString q.den

instance : Scalar Rat where
  zero := 0
  one := 1
  decLt := inferInstance
  abs q := if q < 0 then -q else q
  text := rationalText

instance : Coefficient Rat where
  negligible q := q == 0

/-- Rational arithmetic in which every value nearer to zero than `ε` is negligible. -/
@[reducible] def Coefficient.within (ε : Rat) : Coefficient Rat where
  negligible q := decide (Scalar.abs q < ε)

instance : Precision Rat Rat where
  widen q := q
  narrow q := q

end LexSimplex
