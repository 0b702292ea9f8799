/-!
# Arithmetic

The solver is written once, over two number types. **Coefficients** (`K`) are what rows,
objectives and row constants are made of; **quantities** (`Q`) are what a caller passes in and
reads back. A quantity widens to a coefficient and a coefficient narrows to a quantity, so a
caller may work in fewer digits than the tableau.

No law is assumed here: an instance may round, overflow or have values that compare with
nothing. Each instance says which numbers it takes for zero (`negligible`), and that is the only
tolerance in the library.

## Main definitions

* `Scalar`: the operations on either number type.
* `Coefficient`: a scalar with a notion of a negligible value.
* `Precision`: passing between quantities and coefficients.
-/

namespace LexSimplex

/-- A **scalar** has the four operations, a decidable strict order, an equality test that need
not be the equality of the type, an absolute value and a decimal text. -/
class Scalar (α : Type) extends Zero α, One α, Add α, Sub α, Mul α, Div α, Neg α, LT α,
    BEq α where
  decLt : DecidableLT α
  abs : α → α
  text : α → String

attribute [reducible, instance] Scalar.decLt

namespace Scalar

variable {α : Type} [Scalar α]

/-- The nearest point of the unit interval. A value that compares with neither end is kept. -/
def clampUnit (x : α) : α :=
  if x < 0 then 0 else if 1 < x then 1 else x

/-- The sign of a value as a scalar: `-1` below zero, `1` above, and otherwise the value. -/
def signum (x : α) : α :=
  if x < 0 then -1 else if 0 < x then 1 else x

end Scalar

/-- A **coefficient** is a scalar that can be told to be negligible: too small for the tableau
to keep a term for it. -/
class Coefficient (K : Type) extends Scalar K where
  negligible : K → Bool

namespace Coefficient

variable {K : Type} [Coefficient K]

/-- Negligible values become exactly zero; all others are kept. -/
def flush (x : K) : K :=
  if negligible x then 0 else x

end Coefficient

/-- How the caller's quantities `Q` are read as coefficients `K` and written back. -/
class Precision (K Q : Type) where
  widen : Q → K
  narrow : K → Q

end LexSimplex
