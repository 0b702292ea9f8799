import LexSimplex.BinaryFormat
import LexSimplex.Decimal

/-!
# Shortest decimals

A binary format holds only some numbers, and a decimal read in it stands for the one nearest to
it. The **shortest decimal** of a held number has the fewest digits among those that read back
to it, and is the nearest of these; of two at the same distance it is the upper.

The decimals that read back are those between the number's two half-way points to its
neighbours. Decimals with a given number of digits form a grid, and if a point of a grid lies in
that interval, so does one of the number's own two neighbours on the grid. So it is enough to
try these two, grid by grid.

## Main definitions

* `ReadingInterval`: a number with the interval in which decimals read back to it.
* `ReadingInterval.onGrid?`: the decimal of a grid that reads back.
* `BinaryFormat.shortest`: the shortest decimal of a magnitude.
* `BinaryFormat.text`: the numeral of a word, in positional notation.
-/

namespace LexSimplex

/-- A positive number with its **reading interval**, as numerators over one denominator. The
ends belong to the interval exactly when it is `closed`. -/
structure ReadingInterval where
  low : Nat
  value : Nat
  high : Nat
  denominator : Nat
  closed : Bool

namespace ReadingInterval

/-- Whether `digits * up / down` reads back. -/
def admits (r : ReadingInterval) (digits up down : Nat) : Bool :=
  let point := digits * up * r.denominator
  if r.closed then decide (r.low * down ≤ point) && decide (point ≤ r.high * down)
  else decide (r.low * down < point) && decide (point < r.high * down)

/-- The multiple of `10 ^ exponent` that reads back, if there is one: one of the value's two
neighbours on that grid, the nearer if both read back, the upper at equal distance. -/
def onGrid? (r : ReadingInterval) (exponent : Int) : Option Decimal :=
  let up := Nat.pow 10 exponent.toNat
  let down := Nat.pow 10 (-exponent).toNat
  let unit := up * r.denominator
  let below := r.value * down / unit
  let rest := r.value * down % unit
  let lower := r.admits below up down && decide (0 < below)
  let upper := r.admits (below + 1) up down
  if lower && (!upper || decide (2 * rest < unit)) then some ⟨below, exponent⟩
  else if upper then some ⟨below + 1, exponent⟩
  else none

/-- The number of zeros between the point and the first digit of the fraction `num / den`, which
is less than one: the least `j` with `den ≤ 10 ^ (j + 1) * num`, looked for in `fuel` steps. -/
def leadingZeros (den : Nat) : Nat → Nat → Nat
  | 0, _ => 0
  | fuel + 1, num => if den ≤ 10 * num then 0 else leadingZeros den fuel (10 * num) + 1

/-- The `k` with `10 ^ (k - 1) ≤ value < 10 ^ k`. -/
def scale (r : ReadingInterval) : Int :=
  if r.denominator ≤ r.value then (Nat.toDigits 10 (r.value / r.denominator)).length
  else -(leadingZeros r.denominator r.denominator.log2 r.value)

/-- The decimal of the first grid on which one reads back, among `fuel` grids from that with `n`
digits on. The value is less than `10 ^ k`. -/
def firstGrid? (r : ReadingInterval) (k : Int) : Nat → Nat → Option Decimal
  | 0, _ => none
  | fuel + 1, n => (r.onGrid? (k - n)).or (r.firstGrid? k fuel (n + 1))

end ReadingInterval

/-- The magnitude itself as a decimal: a power of two in a denominator divides as many powers of
ten. -/
def Magnitude.exact (m : Magnitude) : Decimal :=
  match m.exponent with
  | .ofNat e => ⟨m.mantissa * Nat.pow 2 e, 0⟩
  | .negSucc e => ⟨m.mantissa * Nat.pow 5 (e + 1), .negSucc e⟩

namespace BinaryFormat

/-- Whether a magnitude is the least with its last place, so that its lower neighbour is half as
far away as its upper one. -/
def isStep (f : BinaryFormat) (m : Magnitude) : Bool :=
  m.mantissa == Nat.pow 2 f.fractionBits && decide (f.leastExponent < m.exponent)

/-- The reading interval of a magnitude. Quarters of its last place reach both half-way points;
an even mantissa wins a tie, which closes the interval. -/
def readingInterval (f : BinaryFormat) (m : Magnitude) : ReadingInterval :=
  let e := m.exponent - 2
  let up := Nat.pow 2 e.toNat
  { low := (4 * m.mantissa - if f.isStep m then 1 else 2) * up
    value := 4 * m.mantissa * up
    high := (4 * m.mantissa + 2) * up
    denominator := Nat.pow 2 (-e).toNat
    closed := m.mantissa % 2 == 0 }

/-- The **shortest decimal** of a magnitude. Seventeen digits tell any two numbers of a format
of at most 53 binary digits apart. -/
def shortest (f : BinaryFormat) (m : Magnitude) : Decimal :=
  let r := f.readingInterval m
  (r.firstGrid? r.scale 17 1).getD m.exact

/-- The numeral of a word: a minus sign if it has one, then shortest digits in positional
notation. Zero keeps its sign; an undefined value has none. -/
def text (f : BinaryFormat) (word : Nat) : String :=
  let sign := if f.isNegative word then "-" else ""
  match f.decode word with
  | .undefined => "NaN"
  | .infinite => sign ++ "inf"
  | .finite m => sign ++ if m.mantissa = 0 then "0" else (f.shortest m).positional

end BinaryFormat

end LexSimplex
