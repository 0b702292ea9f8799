import LexSimplex.Arithmetic
import LexSimplex.Assoc
import LexSimplex.Handle

/-!
# Linear expressions

An expression `constant + Σ coefficient * variable`. Depending on who holds it, it is a request
under construction, a row waiting to enter the tableau (`0 = expression`), or the definition of
a basic variable (`basic = expression`).

**Term convention.** Variables in an expression are distinct, and a term whose coefficient
becomes negligible under addition is dropped, the last term taking its place. Scaling keeps
every term.

## Main definitions

* `LinExpr.addTerm`, `LinExpr.setTerm`, `LinExpr.addScaled`: building up.
* `LinExpr.solveFor`: the expression of a variable from `0 = expression`.
* `LinExpr.exchange`: the expression of `w` from `v = expression`.
* `LinExpr.substitute`: a variable replaced by an expression of it.
-/

namespace LexSimplex

/-- A constant and terms in order. -/
structure LinExpr (K : Type) where
  constant : K
  terms : Assoc VarId K
  deriving DecidableEq

namespace LinExpr

variable {K : Type}

/-- The variables of an expression, in order. -/
def vars (e : LinExpr K) : List VarId :=
  e.terms.keys

/-- The coefficient of a variable that has a term. -/
def coefficient? (e : LinExpr K) (v : VarId) : Option K :=
  e.terms.get? v

/-- Whether a variable has a term. -/
def contains (e : LinExpr K) (v : VarId) : Bool :=
  e.terms.contains v

/-- The expression without the term of a variable; the last term takes its place. -/
def without (e : LinExpr K) (v : VarId) : LinExpr K :=
  { e with terms := e.terms.swapErase v }

variable [Coefficient K]

/-- The expression that is zero. -/
def zero : LinExpr K :=
  ⟨0, []⟩

/-- The coefficient of a variable, zero without a term. -/
def coefficient (e : LinExpr K) (v : VarId) : K :=
  (e.coefficient? v).getD 0

/-- The sum `e + c * v`. A negligible `c` changes nothing. -/
def addTerm (e : LinExpr K) (v : VarId) (c : K) : LinExpr K :=
  if Coefficient.negligible c then e
  else match e.coefficient? v with
    | none => { e with terms := e.terms ++ [(v, c)] }
    | some x =>
      if Coefficient.negligible (x + c) then e.without v
      else { e with terms := e.terms.set v (x + c) }

/-- The expression in which `v` has the coefficient `c`, and no term if that is negligible. -/
def setTerm (e : LinExpr K) (v : VarId) (c : K) : LinExpr K :=
  if Coefficient.negligible c then e.without v
  else { e with terms := e.terms.insert v c }

/-- The sum `e + c * d`. -/
def addScaled (e d : LinExpr K) (c : K) : LinExpr K :=
  d.terms.foldl (fun e term => e.addTerm term.1 (c * term.2))
    { e with constant := e.constant + c * d.constant }

/-- The expression with its sign changed. -/
def negate (e : LinExpr K) : LinExpr K :=
  ⟨-e.constant, e.terms.map fun term => (term.1, -term.2)⟩

/-- The product `m * e`, every term kept. -/
def scale (e : LinExpr K) (m : K) : LinExpr K :=
  ⟨e.constant * m, e.terms.map fun term => (term.1, term.2 * m)⟩

/-- The expression of `v` that `0 = e` gives. A variable without a term is taken to have the
coefficient one. -/
def solveFor (e : LinExpr K) (v : VarId) : LinExpr K :=
  (e.without v).scale (-1 / (e.coefficient? v).getD 1)

/-- The expression of `w` that `v = e` gives. -/
def exchange (e : LinExpr K) (v w : VarId) : LinExpr K :=
  (e.setTerm v (-1)).solveFor w

/-- The expression with `v` replaced by `d`. A negligible constant becomes zero. -/
def substitute (e : LinExpr K) (v : VarId) (d : LinExpr K) : LinExpr K :=
  match e.coefficient? v with
  | none => e
  | some c =>
    let e := (e.without v).addScaled d c
    { e with constant := Coefficient.flush e.constant }

end LinExpr

end LexSimplex
