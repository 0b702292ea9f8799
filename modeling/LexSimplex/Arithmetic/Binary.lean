import LexSimplex.Arithmetic
import LexSimplex.Decimal.Shortest

/-!
# Binary floating point

The arithmetic in which the solver runs: 64-bit coefficients and 32-bit quantities, both printed
by their shortest decimals. A coefficient is negligible below `tolerance`. Passing between the
two goes by their words, so that it can be computed in a proof like the rest of the arithmetic.
-/

namespace LexSimplex

/-- Coefficients nearer to zero than this are negligible. -/
def tolerance : Float := 1e-8

instance : Scalar Float where
  decLt := inferInstance
  abs := Float.abs
  text x := binary64.text x.toBits.toNat

instance : Coefficient Float where
  negligible x := decide (x.abs < tolerance)

instance : Scalar Float32 where
  decLt := inferInstance
  abs := Float32.abs
  text x := binary32.text x.toBits.toNat

instance : Precision Float Float32 where
  widen x := Float.ofBits (UInt64.ofNat (binary32.convert binary64 x.toBits.toNat))
  narrow x := Float32.ofBits (UInt32.ofNat (binary64.convert binary32 x.toBits.toNat))

end LexSimplex
