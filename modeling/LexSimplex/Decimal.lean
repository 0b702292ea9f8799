/-!
# Decimal numerals

A decimal is a natural number scaled by a power of ten. Its **positional** text writes every
digit and never an exponent: `5`, `0.1`, `100000000000000000000`, `0.00000001`.
-/

namespace LexSimplex

/-- The number `digits * 10 ^ exponent`. -/
structure Decimal where
  digits : Nat
  exponent : Int

namespace Decimal

/-- A fraction's digits without the zeros at their end. -/
def trimZeros (ds : List Char) : List Char :=
  (ds.reverse.dropWhile (· == '0')).reverse

/-- The last `places` digits of `n`, with zeros in front where there are fewer. -/
def lastDigits (places n : Nat) : List Char :=
  let ds := Nat.toDigits 10 n
  List.replicate (places - ds.length) '0' ++ ds

/-- The numeral of `digits / 10 ^ places`. A fraction of zeros is left out with its point. -/
def fractionText (digits places : Nat) : String :=
  let whole := toString (digits / Nat.pow 10 places)
  match trimZeros (lastDigits places (digits % Nat.pow 10 places)) with
  | [] => whole
  | ds => whole ++ "." ++ String.ofList ds

/-- **Positional text**: every digit in its place, no exponent. -/
def positional : Decimal → String
  | ⟨digits, .ofNat e⟩ => toString (digits * Nat.pow 10 e)
  | ⟨digits, .negSucc e⟩ => fractionText digits (e + 1)

end Decimal

end LexSimplex
