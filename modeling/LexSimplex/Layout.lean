import LexSimplex.Relation
import LexSimplex.Request

/-!
# Layouts

The relations between positions that layouts are made of: one position at a distance from
another or at a value, one box centred or biased within another, one extent in proportion to
another. Each stands for one request.

## Main definitions

* `Layout`: the shapes, with their quantities.
* `Layout.request`, `Layout.relation`: the constraint that a shape stands for.
-/

namespace LexSimplex

/-- A relation between positions. -/
inductive Layout (Q : Type) where
  /-- The position `a` is `margin` after `b`. -/
  | equality (a b : VarId) (margin : Q)
  /-- The position `a` is at least `margin` after `b`. -/
  | greater (a b : VarId) (margin : Q)
  /-- The position `a` is at most `margin` after `b`. -/
  | lower (a b : VarId) (margin : Q)
  /-- The position `a` is `x`. -/
  | value (a : VarId) (x : Q)
  /-- The slack of the gap from `b` to `a` and that of the gap from `d` to `c`, each beyond its
  margin, are as `bias` to what `bias` leaves of one. -/
  | centering (a b : VarId) (marginAB bias : Q) (c d : VarId) (marginCD : Q)
  /-- The distance from `b` to `a` is `scale` times that from `d` to `c`. -/
  | ratio (a b c d : VarId) (scale : Q)

namespace Layout

variable {K Q : Type} [Coefficient K] [Scalar Q] [Precision K Q]

/-- The relation of a layout's expression to zero. -/
def relation : Layout Q → Relation
  | .greater .. => .ge
  | .lower .. => .le
  | _ => .eq

/-- The request for `a - b - margin`. -/
def offset (a b : VarId) (margin : Q) : Request K :=
  Request.empty |>.addTerm a (1 : Q) |>.addTerm b (-1 : Q) |>.addConstant (-margin)

/-- The request for `a - x`. -/
def position (a : VarId) (x : Q) : Request K :=
  Request.empty |>.addTerm a (1 : Q) |>.addConstant (-x)

/-- The request for `keep * (a - b - marginAB) - bias * (c - d - marginCD)`, where `bias` is
brought into the unit interval and `keep` is the rest of it. -/
def balance (a b : VarId) (marginAB bias : Q) (c d : VarId) (marginCD : Q) : Request K :=
  let bias := Scalar.clampUnit bias
  let keep := 1 - bias
  Request.empty |>.addTerm a keep |>.addTerm b (-keep) |>.addTerm c (-bias) |>.addTerm d bias
    |>.addConstant (bias * marginCD - keep * marginAB)

/-- The request for `(a - b) - scale * (c - d)`. -/
def proportion (a b c d : VarId) (scale : Q) : Request K :=
  Request.empty |>.addTerm a (1 : Q) |>.addTerm b (-1 : Q) |>.addTerm c (-scale)
    |>.addTerm d scale

/-- The expression of a layout, as a request of the standard strength. -/
def shape : Layout Q → Request K
  | .equality a b margin | .greater a b margin | .lower a b margin => offset a b margin
  | .value a x => position a x
  | .centering a b marginAB bias c d marginCD => balance a b marginAB bias c d marginCD
  | .ratio a b c d scale => proportion a b c d scale

/-- The request that a layout stands for at a strength. -/
def request (layout : Layout Q) (s : Strength) : Request K :=
  layout.shape.setStrength s

end Layout

end LexSimplex
