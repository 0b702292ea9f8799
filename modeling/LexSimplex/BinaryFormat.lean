/-!
# Binary formats

Words of a binary floating-point format, as numbers: sign, exponent field and fraction. A word
is **decoded** into a sign and a magnitude `mantissa * 2 ^ exponent`, and a magnitude is
**encoded** by the word nearest to it. All of it is exact arithmetic on naturals.

The words of a format without their sign are in the order of their values, with infinity last,
so encoding is a matter of counting steps: the word of a number is its multiple of the last
place, counted from the least number that has this last place.

## Main definitions

* `BinaryFormat`, `binary64`, `binary32`: the widths of a format's fields.
* `BinaryFormat.decode`, `BinaryFormat.encode`: between words and values.
* `BinaryFormat.convert`: a word of one format read in another.
-/

namespace LexSimplex

/-- A binary format, by the widths in bits of its two numeric fields. -/
structure BinaryFormat where
  fractionBits : Nat
  exponentBits : Nat

/-- The 64-bit format. -/
def binary64 : BinaryFormat := ⟨52, 11⟩

/-- The 32-bit format. -/
def binary32 : BinaryFormat := ⟨23, 8⟩

/-- The number `mantissa * 2 ^ exponent`. -/
structure Magnitude where
  mantissa : Nat
  exponent : Int

/-- What a word stands for, its sign apart. -/
inductive BinaryValue where
  | finite (m : Magnitude)
  | infinite
  | undefined

/-- The quotient of two naturals rounded to the nearest, a half going to the even neighbour. -/
def roundQuotient (n d : Nat) : Nat :=
  let q := n / d
  let rest := n % d
  if 2 * rest < d ∨ (2 * rest = d ∧ q % 2 = 0) then q else q + 1

namespace BinaryFormat

/-- The exponent of the format's least positive number. -/
def leastExponent (f : BinaryFormat) : Int :=
  2 - Nat.pow 2 (f.exponentBits - 1) - f.fractionBits

/-- The word of infinity: every bit of the exponent field set. -/
def infinity (f : BinaryFormat) : Nat :=
  (Nat.pow 2 f.exponentBits - 1) * Nat.pow 2 f.fractionBits

/-- A word of an undefined value: that of infinity with a fraction. -/
def undefined (f : BinaryFormat) : Nat :=
  f.infinity + Nat.pow 2 (f.fractionBits - 1)

/-- Whether a word has a minus sign. -/
def isNegative (f : BinaryFormat) (word : Nat) : Bool :=
  word.testBit (f.fractionBits + f.exponentBits)

/-- A word with a minus sign put in front if `negative`. -/
def withSign (f : BinaryFormat) (negative : Bool) (word : Nat) : Nat :=
  if negative then Nat.pow 2 (f.fractionBits + f.exponentBits) + word else word

/-- The value of a word, its sign apart. An exponent field of zero marks the numbers without a
leading one, and the greatest one marks infinity and undefined values. -/
def decode (f : BinaryFormat) (word : Nat) : BinaryValue :=
  let fraction := word % Nat.pow 2 f.fractionBits
  let field := word / Nat.pow 2 f.fractionBits % Nat.pow 2 f.exponentBits
  if field = Nat.pow 2 f.exponentBits - 1 then
    if fraction = 0 then .infinite else .undefined
  else if field = 0 then .finite ⟨fraction, f.leastExponent⟩
  else .finite ⟨Nat.pow 2 f.fractionBits + fraction, f.leastExponent + (field - 1)⟩

/-- The exponent of the last place that the format has for a magnitude. -/
def lastPlace (f : BinaryFormat) (m : Magnitude) : Int :=
  max f.leastExponent (m.exponent + m.mantissa.log2 - f.fractionBits)

/-- The word of a magnitude: the nearest number, with an even mantissa at a tie. A magnitude
that rounds past the greatest number is infinite. -/
def encodeMagnitude (f : BinaryFormat) (m : Magnitude) : Nat :=
  let place := f.lastPlace m
  let steps := roundQuotient (m.mantissa * Nat.pow 2 (m.exponent - place).toNat)
    (Nat.pow 2 (place - m.exponent).toNat)
  min ((place - f.leastExponent).toNat * Nat.pow 2 f.fractionBits + steps) f.infinity

/-- The word of a value, its sign apart. -/
def encode (f : BinaryFormat) : BinaryValue → Nat
  | .finite m => if m.mantissa = 0 then 0 else f.encodeMagnitude m
  | .infinite => f.infinity
  | .undefined => f.undefined

/-- A word of the format `f` in the format `g`, rounded to nearest where `g` is narrower. -/
def convert (f g : BinaryFormat) (word : Nat) : Nat :=
  g.withSign (f.isNegative word) (g.encode (f.decode word))

end BinaryFormat

end LexSimplex
