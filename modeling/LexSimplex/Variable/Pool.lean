import LexSimplex.Pool
import LexSimplex.Variable

/-!
# Variable pools

The variables of a solver by slot. A variable that is given a stem is named by the stem and a
running number, so one stem gives different names; only named variables are counted. The number has
32 bits and comes round.
-/

namespace LexSimplex

/-- The variables by slot, and the number of the last name. -/
structure VariablePool (Q : Type) where
  slots : Pool (Variable Q)
  named : Nat := 0

namespace VariablePool

variable {Q : Type}

/-- A pool with room for `capacity` variables. -/
def empty (capacity : Nat) : VariablePool Q :=
  { slots := Pool.empty capacity }

/-- A live variable. -/
def get? (p : VariablePool Q) (v : VarId) : Option (Variable Q) :=
  p.slots.get? v.index

/-- Whether a variable is live. -/
def isLive (p : VariablePool Q) (v : VarId) : Bool :=
  p.slots.isLive v.index

/-- The live variables, by number. -/
def toList (p : VariablePool Q) : List (Variable Q) :=
  p.slots.toList

/-- The variable with a handle released; an unknown handle is ignored. -/
def release (p : VariablePool Q) (v : VarId) : VariablePool Q :=
  { p with slots := p.slots.release v.index }

/-- Every variable released, and naming begun anew. -/
def reset (p : VariablePool Q) : VariablePool Q :=
  { slots := p.slots.reset }

/-- A live variable changed by `f`. -/
def modify (p : VariablePool Q) (v : VarId) (f : Variable Q → Variable Q) : VariablePool Q :=
  { p with slots := p.slots.modify v.index f }

/-- Every live variable changed by `f`. -/
def map (p : VariablePool Q) (f : Variable Q → Variable Q) : VariablePool Q :=
  { p with slots := p.slots.map f }

variable [Scalar Q]

/-- A new variable in the least free slot. -/
def acquire (p : VariablePool Q) (kind : Kind) (stem : Option String) :
    VarId × VariablePool Q :=
  let named := if stem.isSome then (p.named + 1) % UInt32.size else p.named
  let name := stem.map (· ++ toString named)
  let v : VarId := ⟨p.slots.nextFree⟩
  (v, { slots := p.slots.occupy (Variable.fresh v kind name), named })

/-- What a slot holds, once it was made: a variable, or the blank that a release leaves. -/
def slot? (p : VariablePool Q) (v : VarId) : Option (Variable Q) :=
  p.slots.slots[v.index]?.map fun x => x.getD (Variable.fresh v .external none)

end VariablePool

end LexSimplex
