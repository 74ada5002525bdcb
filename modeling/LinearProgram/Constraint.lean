import LinearProgram.LinearExpr

/-!
# Constraints

A constraint relates a linear expression to a number.  An LP file has room for a
constant on the right only, so the constant of the expression is taken across.
-/

namespace LinearProgram

/-- A reference to a constraint: its position in order of declaration. -/
structure ConstraintId where
  index : Nat
deriving DecidableEq

def ConstraintId.text (id : ConstraintId) : String :=
  "row#" ++ toString id.index

inductive Relation where
  | le
  | ge
  | eq
deriving DecidableEq

namespace Relation

def text : Relation → String
  | le => "<="
  | ge => ">="
  | eq => "="

/-- The same relation read from the right. -/
def flip : Relation → Relation
  | le => ge
  | ge => le
  | eq => eq

end Relation

structure Constraint where
  id : ConstraintId
  name : Name
  expr : LinearExpr
  relation : Relation
  rhs : Binary64
deriving DecidableEq

/-- The right-hand side once the constant of the expression is taken across. -/
def Constraint.effectiveRhs (constraint : Constraint) : Binary64 :=
  constraint.rhs - constraint.expr.constant

end LinearProgram
