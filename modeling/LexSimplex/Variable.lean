import LexSimplex.Assoc
import LexSimplex.Handle
import LexSimplex.TierVector

/-!
# Variables

A variable belongs to the caller or was made by the solver for a constraint, and its **kind**
says which values it may take. A **pinned** variable has a value for good, and new rows take it
in as a number: it is **folded** into them. A variable counts the constraints it was folded
into.

## Main definitions

* `Kind`: what a variable is for.
* `Variable`: a variable with what the solver keeps of it.
-/

namespace LexSimplex

/-- What a variable is for. **External** variables are the caller's and may take any value;
**slack** and **error** variables are **restricted** to values that are not negative; a
**constant** has a value of its own, and marks a hard equality by standing at zero. -/
inductive Kind where
  | external
  | slack
  | error
  | constant
  deriving DecidableEq

namespace Kind

/-- Every kind. -/
def all : List Kind := [.external, .slack, .error, .constant]

/-- Whether variables of the kind may not be negative. -/
def restricted : Kind → Bool
  | .slack | .error => true
  | .external | .constant => false

/-- The word for a kind. -/
def name : Kind → String
  | .external => "external"
  | .slack => "slack"
  | .error => "error"
  | .constant => "constant"

/-- The letter that stands before the number of a variable without a name. -/
def letter : Kind → String
  | .external => "x"
  | .slack => "s"
  | .error => "e"
  | .constant => "k"

end Kind

/-- A variable. The `penalty` of an error variable is the tier that pays for it. The value
`computed` is the one last settled, by a solution or by pinning. A basic variable has the row
that defines it as its `definition`. The rows in which the variable has a term are `refs`, in an
order that pivoting follows. -/
structure Variable (Q : Type) where
  id : VarId
  kind : Kind
  name : Option String
  penalty : Option Strength
  computed : Q
  pinned : Bool
  folds : Nat
  definition : Option RowId
  refs : List RowId

namespace Variable

variable {K Q : Type}

/-- A variable as it is acquired, before anything is known of it. -/
def fresh [Scalar Q] (id : VarId) (kind : Kind) (name : Option String) : Variable Q where
  id := id
  kind := kind
  name := name
  penalty := none
  computed := 0
  pinned := false
  folds := 0
  definition := none
  refs := []

/-- The strength of a variable's penalty; the weakest where it has none. -/
def strength (v : Variable Q) : Strength :=
  v.penalty.getD .none

/-- The objective of a variable: one at the tier that pays for it. -/
def vector [Coefficient K] (v : Variable Q) : TierVector K :=
  match v.penalty with
  | none => TierVector.zero
  | some s => TierVector.unit s

/-- Whether rows take the variable in as a number. -/
def isFolded (v : Variable Q) : Bool :=
  v.pinned || v.kind = .constant

/-- The name of a variable, or its kind's letter and its number. -/
def label (v : Variable Q) : String :=
  v.name.getD (v.kind.letter ++ toString v.id.index)

/-- The variable with a value for good. -/
def pin (v : Variable Q) (x : Q) : Variable Q :=
  { v with computed := x, pinned := true }

/-- The variable no longer pinned; its value stays the one last settled. -/
def unpin (v : Variable Q) : Variable Q :=
  { v with pinned := false }

/-- One more constraint has the variable folded in. -/
def retainFold (v : Variable Q) : Variable Q :=
  { v with folds := v.folds + 1 }

/-- One constraint less has the variable folded in. -/
def releaseFold (v : Variable Q) : Variable Q :=
  { v with folds := v.folds - 1 }

/-- The variable defined by a row, or by none. -/
def define (v : Variable Q) (r : Option RowId) : Variable Q :=
  { v with definition := r }

/-- The variable has a term in the row: the row comes last, unless it was there already. -/
def addRef (v : Variable Q) (r : RowId) : Variable Q :=
  if r ∈ v.refs then v else { v with refs := v.refs ++ [r] }

/-- The variable has no term in the row: the last row takes its place. -/
def removeRef (v : Variable Q) (r : RowId) : Variable Q :=
  { v with refs := v.refs.swapErase (· == r) }

end Variable

end LexSimplex
