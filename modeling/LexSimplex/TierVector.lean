import LexSimplex.Arithmetic
import LexSimplex.Strength

/-!
# Tier vectors

A **tier vector** has one coefficient for each strength. It is what an objective has where a
plain simplex method has a number: vectors are compared at the strongest tier at which they
differ by more than a negligible amount, so one objective stands for nine, in order.

## Main definitions

* `TierVector.unit`: one at a single tier.
* `TierVector.addScaled`, `TierVector.scaled`: the arithmetic that pivoting needs.
* `TierVector.sign`, `TierVector.compare`: the lexicographic order, strongest tier first.
-/

namespace LexSimplex

/-- One coefficient for each strength, weakest first. -/
structure TierVector (K : Type) where
  none : K
  low : K
  medium : K
  high : K
  highest : K
  equality : K
  barrier : K
  centering : K
  fixed : K

namespace TierVector

variable {K : Type}

/-- The coefficient at a tier. -/
def get (a : TierVector K) : Strength → K
  | .none => a.none
  | .low => a.low
  | .medium => a.medium
  | .high => a.high
  | .highest => a.highest
  | .equality => a.equality
  | .barrier => a.barrier
  | .centering => a.centering
  | .fixed => a.fixed

/-- The vector with the coefficient `f s` at each tier `s`. -/
def ofFn (f : Strength → K) : TierVector K where
  none := f .none
  low := f .low
  medium := f .medium
  high := f .high
  highest := f .highest
  equality := f .equality
  barrier := f .barrier
  centering := f .centering
  fixed := f .fixed

/-- A vector given by a function has its values. -/
@[simp] theorem get_ofFn (f : Strength → K) (s : Strength) : (ofFn f).get s = f s := by
  cases s <;> rfl

/-- A vector is its coefficients. -/
theorem ext_get {a b : TierVector K} (h : ∀ s, a.get s = b.get s) : a = b := by
  cases a
  cases b
  simp only [mk.injEq]
  exact ⟨h .none, h .low, h .medium, h .high, h .highest, h .equality, h .barrier,
    h .centering, h .fixed⟩

/-- The coefficients, weakest tier first. -/
def toList (a : TierVector K) : List K :=
  Strength.all.map a.get

/-- The vector with the given coefficients, weakest tier first, if there are nine. -/
def ofList? : List K → Option (TierVector K)
  | [none, low, medium, high, highest, equality, barrier, centering, fixed] =>
    some ⟨none, low, medium, high, highest, equality, barrier, centering, fixed⟩
  | _ => Option.none

variable [Coefficient K]

/-- Zero at every tier. -/
def zero : TierVector K :=
  ofFn fun _ => 0

/-- One at a tier and zero at the others. -/
def unit (s : Strength) : TierVector K :=
  ofFn fun t => if t = s then 1 else 0

/-- The sum `a + factor * b`. A tier at which `b` is zero keeps its coefficient, and at the
others a negligible sum becomes zero. -/
def addScaled (a b : TierVector K) (factor : K) : TierVector K :=
  ofFn fun s =>
    if b.get s == 0 then a.get s else Coefficient.flush (a.get s + b.get s * factor)

/-- The product `factor * a`, with negligible coefficients made zero. -/
def scaled (a : TierVector K) (factor : K) : TierVector K :=
  ofFn fun s => Coefficient.flush (a.get s * factor)

/-- The difference at each tier. -/
def sub (a b : TierVector K) : TierVector K :=
  ofFn fun s => a.get s - b.get s

/-- Whether every coefficient is negligible. -/
def isZero (a : TierVector K) : Bool :=
  a.toList.all Coefficient.negligible

/-- The coefficient of the strongest tier at which it is not negligible. -/
def leading? (a : TierVector K) : Option K :=
  a.toList.reverse.find? fun x => !Coefficient.negligible x

/-- The sign of the leading coefficient. One that is not below zero counts as above. -/
def sign (a : TierVector K) : Ordering :=
  match a.leading? with
  | .none => .eq
  | some x => if x < 0 then .lt else .gt

/-- The **lexicographic order**: the sign of the difference. -/
def compare (a b : TierVector K) : Ordering :=
  (a.sub b).sign

/-- Equality at each tier. -/
instance : BEq (TierVector K) where
  beq a b := Strength.all.all fun s => a.get s == b.get s

/-- The coefficients in brackets, weakest tier first. -/
def text (a : TierVector K) : String :=
  "[" ++ " ".intercalate (a.toList.map Scalar.text) ++ "]"

end TierVector

end LexSimplex
