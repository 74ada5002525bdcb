import LinearProgram.Model.Tables

/-!
# Models

A model is a linear or mixed-integer program: variables, constraints and an objective.
It is built by operations that give back the model they leave, also when they fail, next
to a value or an error.
-/

namespace LinearProgram

inductive Sense where
  | minimize
  | maximize
deriving DecidableEq

def Sense.text : Sense → String
  | .minimize => "min"
  | .maximize => "max"

structure Objective where
  sense : Sense
  expr : LinearExpr
deriving DecidableEq

/-- A linear or mixed-integer program, with the variable that is always one if it has one. -/
structure Model where
  columns : VariableTable
  rows : ConstraintTable
  objective : Option Objective
  alwaysOne : Option VariableId
deriving DecidableEq

namespace Model

def empty : Model :=
  ⟨.empty, .empty, none, none⟩

instance : Inhabited Model := ⟨empty⟩

/-- The variables in order of declaration. -/
def vars (model : Model) : List Variable :=
  model.columns.entries

/-- The constraints in order of declaration. -/
def constraints (model : Model) : List Constraint :=
  model.rows.entries

/-- The model after a declaration, and the id of the new variable if it is one. -/
def declare (model : Model) (name : Name) (bounds : Bounds) (kind : VariableKind) :
    Model × Except ModelError VariableId :=
  let (columns, outcome) := model.columns.declare name bounds kind
  ({ model with columns }, outcome)

/-- A continuous variable from zero upward. -/
def declareContinuous (model : Model) (name : Name) : Model × Except ModelError VariableId :=
  model.declare name .nonNegative .continuous

/-- The name of the variable that is always one. -/
def alwaysOneName : Name :=
  .flat "ONE"

/-- The variable that is always one, declared when it is first asked for. -/
def one (model : Model) : Model × Except ModelError VariableId :=
  match model.alwaysOne with
  | some id => (model, .ok id)
  | none =>
    match model.declare alwaysOneName (.fixed .one) .continuous with
    | (model, .error error) => (model, .error error)
    | (model, .ok id) => ({ model with alwaysOne := some id }, .ok id)

/--
The expression with its constant as a coefficient of the variable that is always one.

That variable stays declared also when the constant turns out not to be finite.
-/
def foldConstant (model : Model) (expr : LinearExpr) : Model × Except ModelError LinearExpr :=
  if expr.constant.isZero then (model, .ok expr)
  else match model.one with
    | (model, .error error) => (model, .error error)
    | (model, .ok one) =>
      let folded := do
        let term ← LinearExpr.term? one expr.constant
        return expr.add (term.add (.ofConstant (-expr.constant)))
      (model, folded)

/-- An expression over declared variables with finite numbers. -/
def checkExpr (model : Model) (expr : LinearExpr) : Except ModelError Unit :=
  match expr.vars.find? fun id => !model.columns.contains id with
  | some id => .error (.unknownVariable id.text)
  | none =>
    match expr.firstNonFinite? with
    | some value => .error (.nonFinite value)
    | none => .ok ()

/-- Whether an expression and a number can stand in a constraint. -/
def checkRow (model : Model) (expr : LinearExpr) (rhs : Binary64) : Except ModelError Unit := do
  model.checkExpr expr
  if !rhs.isFinite then
    throw (.nonFinite rhs)

/-- The model after an addition, and the id of the new constraint if there is one. -/
def addConstraint
    (model : Model) (name : Name) (expr : LinearExpr) (relation : Relation) (rhs : Binary64) :
    Model × Except ModelError ConstraintId :=
  match model.checkRow expr rhs with
  | .error error => (model, .error error)
  | .ok () =>
    let (rows, outcome) := model.rows.add name expr relation rhs
    ({ model with rows }, outcome)

/-- Whether an expression can become the objective, which is set once and for all. -/
def checkObjective (model : Model) (expr : LinearExpr) : Except ModelError Unit := do
  if model.objective.isSome then
    throw .objectiveAlreadySet
  model.checkExpr expr

/-- The model after its objective has been set, if it can be. -/
def setObjective (model : Model) (sense : Sense) (expr : LinearExpr) :
    Model × Except ModelError Unit :=
  match model.checkObjective expr with
  | .error error => (model, .error error)
  | .ok () => ({ model with objective := some ⟨sense, expr⟩ }, .ok ())

/-- The number of variables of one kind. -/
def countKind (model : Model) (kind : VariableKind) : Nat :=
  model.vars.countP fun entry => entry.kind = kind

end Model

end LinearProgram
