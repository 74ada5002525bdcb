import LinearProgram.Decimal.Style
import LinearProgram.Name

/-!
# Variables

A variable has a name, bounds on its value, and a kind.  It is referred to by its id,
which is its position among the variables of its model.
-/

namespace LinearProgram

/-- A reference to a variable: its position in order of declaration. -/
structure VariableId where
  index : Nat
deriving DecidableEq

namespace VariableId

/-- The way messages mention a variable that may have no name. -/
def text (id : VariableId) : String :=
  "var#" ++ toString id.index

end VariableId

inductive VariableKind where
  | continuous
  | integer
  | binary
deriving DecidableEq

namespace VariableKind

def text : VariableKind → String
  | continuous => "continuous"
  | integer => "integer"
  | binary => "binary"

end VariableKind

/-- The least and the greatest value of a variable; infinite where there is no limit. -/
structure Bounds where
  lower : Binary64
  upper : Binary64
deriving DecidableEq

namespace Bounds

/-- From zero upward, as for every variable without bounds of its own. -/
def nonNegative : Bounds :=
  ⟨.zero, .infinity false⟩

def free : Bounds :=
  ⟨.infinity true, .infinity false⟩

def fixed (value : Binary64) : Bounds :=
  ⟨value, value⟩

/-- From zero to one, as for every binary variable. -/
def unitInterval : Bounds :=
  ⟨.zero, .one⟩

instance : Inhabited Bounds := ⟨nonNegative⟩

/-- Whether the bounds are numerically those of a variable without bounds of its own. -/
def isDefault (bounds : Bounds) : Bool :=
  bounds.lower.isZero && bounds.upper.isPositiveInfinity

def isFixed (bounds : Bounds) : Bool :=
  bounds.lower.numEq bounds.upper

def isFree (bounds : Bounds) : Bool :=
  bounds.lower.isNegativeInfinity && bounds.upper.isPositiveInfinity

/-- Numbers in order that leave room for a finite value. -/
def isValid (bounds : Bounds) : Bool :=
  !bounds.lower.isNaN && !bounds.upper.isNaN && !bounds.lower.isPositiveInfinity &&
    !bounds.upper.isNegativeInfinity && bounds.lower.numLe bounds.upper

end Bounds

/-- A decision variable. -/
structure Variable where
  id : VariableId
  name : Name
  bounds : Bounds
  kind : VariableKind
deriving DecidableEq

end LinearProgram
