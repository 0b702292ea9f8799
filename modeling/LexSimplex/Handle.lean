/-!
# Handles

The names by which variables, rows and constraints are spoken of. A handle is a number under a
type of its own, so that a row is never looked up by a variable's name. Variable and row handles
are slots of a pool and come back into use after a release. Constraint handles count up whatever
becomes of the constraints, and they have 32 bits: once `ConstraintId.total` of them were given out
they come round, and the same handles are given out again from the first one on.

## Main definitions

* `VarId`, `RowId`, `ConstraintId`: the handles.
* `ConstraintId.nth`: the handle of the constraint that is entered after so many others.
-/

namespace LexSimplex

/-- The handle of a variable. Handles are ordered by number, and the order breaks ties in
pivoting. -/
structure VarId where
  index : Nat
  deriving DecidableEq

/-- The handle of a row. -/
structure RowId where
  index : Nat
  deriving DecidableEq

/-- The handle of a constraint. -/
structure ConstraintId where
  index : Nat
  deriving DecidableEq

namespace VarId

instance : LT VarId := ⟨fun a b => a.index < b.index⟩

instance : DecidableLT VarId := fun a b => inferInstanceAs (Decidable (a.index < b.index))

/-- Handles of variables are in the order of their indices. -/
theorem lt_iff {a b : VarId} : a < b ↔ a.index < b.index := Iff.rfl

/-- A variable's number after the letter of variables. -/
def text (v : VarId) : String := "v" ++ toString v.index

end VarId

/-- A row's number after the letter of rows. -/
def RowId.text (r : RowId) : String := "r" ++ toString r.index

namespace ConstraintId

/-- How many handles of constraints there are: as many as numbers of 32 bits. -/
def total : Nat := UInt32.size

/-- The handle of the constraint that is entered after `n` others. -/
def nth (n : Nat) : ConstraintId := ⟨n % total⟩

/-- Handles count up until all were given out. -/
theorem nth_index_of_lt {n : Nat} (h : n < total) : (nth n).index = n :=
  Nat.mod_eq_of_lt h

/-- Handles come round. -/
theorem nth_add_total (n : Nat) : nth (n + total) = nth n := by
  simp [nth]

/-- A constraint's number after the letter of constraints. -/
def text (c : ConstraintId) : String := "c" ++ toString c.index

end ConstraintId

end LexSimplex
