import LinearProgram.ModelError

/-!
# Linear expressions

A linear expression is a list of terms, each a variable with its coefficient, and a
constant.  The operations keep at most one term for a variable, in the order in which
variables first come up, and no term whose coefficient is zero.
-/

namespace LinearProgram

/-- Coefficients of variables in order, and a constant. -/
structure LinearExpr where
  terms : List (VariableId × Binary64)
  constant : Binary64
deriving DecidableEq

namespace LinearExpr

def empty : LinearExpr :=
  ⟨[], .zero⟩

/-- A single variable with coefficient one. -/
def var (id : VariableId) : LinearExpr :=
  ⟨[(id, .one)], .zero⟩

def ofConstant (value : Binary64) : LinearExpr :=
  ⟨[], value⟩

/-- A single term; a zero coefficient is refused rather than dropped. -/
def term? (id : VariableId) (coefficient : Binary64) : Except ModelError LinearExpr :=
  if coefficient.isZero then .error (.zeroCoefficient id)
  else if !coefficient.isFinite then .error (.nonFinite coefficient)
  else .ok ⟨[(id, coefficient)], .zero⟩

/-- The terms with a coefficient added to its variable, which goes last if it is new. -/
def addTerm :
    List (VariableId × Binary64) → VariableId × Binary64 → List (VariableId × Binary64)
  | [], (id, coefficient) => [(id, coefficient)]
  | (other, sum) :: terms, (id, coefficient) =>
    if other = id then (other, sum + coefficient) :: terms
    else (other, sum) :: addTerm terms (id, coefficient)

/-- The terms whose coefficient is not zero. -/
def dropZeros (terms : List (VariableId × Binary64)) : List (VariableId × Binary64) :=
  terms.filter fun term => !term.2.isZero

/-- The terms with repeated variables summed, unless some coefficient is not finite. -/
def ofTerms? (terms : List (VariableId × Binary64)) : Except ModelError LinearExpr :=
  match terms.find? fun term => !term.2.isFinite with
  | some (_, coefficient) => .error (.nonFinite coefficient)
  | none => .ok ⟨dropZeros (terms.foldl addTerm []), .zero⟩

def withConstant (expr : LinearExpr) (constant : Binary64) : LinearExpr :=
  ⟨expr.terms, constant⟩

def coefficient? (expr : LinearExpr) (id : VariableId) : Option Binary64 :=
  (expr.terms.find? fun term => term.1 = id).map Prod.snd

def vars (expr : LinearExpr) : List VariableId :=
  expr.terms.map Prod.fst

/-- Whether the expression has no terms; its constant may be anything. -/
def isEmpty (expr : LinearExpr) : Bool :=
  expr.terms.isEmpty

/-- The sum, without the terms that cancel. -/
def add (a b : LinearExpr) : LinearExpr :=
  ⟨dropZeros (b.terms.foldl addTerm a.terms), a.constant + b.constant⟩

/-- Every coefficient and the constant multiplied; a zero factor leaves nothing. -/
def scale (expr : LinearExpr) (factor : Binary64) : LinearExpr :=
  if factor.isZero then empty
  else
    ⟨dropZeros (expr.terms.map fun term => (term.1, term.2 * factor)), expr.constant * factor⟩

def sub (a b : LinearExpr) : LinearExpr :=
  a.add (b.scale (-.one))

/-- The expressions added from left to right. -/
def sum (exprs : List LinearExpr) : LinearExpr :=
  exprs.foldl add empty

/-- The first coefficient that is not finite, or else such a constant. -/
def firstNonFinite? (expr : LinearExpr) : Option Binary64 :=
  (expr.terms.map Prod.snd ++ [expr.constant]).find? fun value => !value.isFinite

/-- The same variables in the same order with numerically equal numbers. -/
def numEq (a b : LinearExpr) : Bool :=
  a.vars == b.vars &&
    (a.terms.zip b.terms).all (fun pair => pair.1.2.numEq pair.2.2) &&
    a.constant.numEq b.constant

end LinearExpr

end LinearProgram
