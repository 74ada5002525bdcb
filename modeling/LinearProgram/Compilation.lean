import LinearProgram.Document.DeclarationOrder
import LinearProgram.Document.Parser

/-!
# From documents to models

A document denotes a model when its names can be told apart and its numbers are finite.
Variables take the kind of the section that lists them and the bounds of the last
statement that mentions each side; rows without a label are numbered.
-/

namespace LinearProgram

inductive CompileError where
  | parse (error : ParseError)
  | model (error : ModelError)
  | conflictingKind (name : String)

namespace CompileError

def message : CompileError → String
  | parse error => "Parse error: " ++ error.message
  | model error => error.message
  | conflictingKind name =>
    "Variable " ++ name ++ " is listed under both " ++ VariableKind.integer.text ++ " and " ++
      VariableKind.binary.text

end CompileError

/-- Bounds with the sides that a statement mentions replaced. -/
def Bounds.override (bounds : Bounds) (statement : BoundStatement) : Bounds :=
  ⟨statement.lower.getD bounds.lower, statement.upper.getD bounds.upper⟩

namespace Document

/-- The kind of the section that lists a variable. -/
def kindOf (document : Document) (name : String) : VariableKind :=
  if document.binaries.contains name then .binary
  else if document.generals.contains name then .integer
  else .continuous

/-- The bounds after every statement about a variable, from the first to the last. -/
def boundsOf (document : Document) (name : String) : Bounds :=
  (document.bounds.filter fun statement => statement.name = name).foldl Bounds.override
    .nonNegative

end Document

/-- The expression over the variables declared in the given order. -/
def WrittenExpr.resolve (expr : WrittenExpr) (order : List String) :
    Except ModelError LinearExpr := do
  let terms ← expr.terms.mapM fun term =>
    match order.idxOf? term.name with
    | some index => Except.ok (VariableId.mk index, term.coefficient)
    | none => Except.error (ModelError.unknownVariable term.name)
  let sum ← LinearExpr.ofTerms? terms
  return sum.withConstant expr.constant

/-- The name of a row: its label, or else its number behind a given beginning. -/
def Row.nameAt (beginning : String) (index : Nat) (row : Row) : Name :=
  match row.label with
  | some label => .ofText label
  | none => .flat (beginning ++ toString index)

namespace Model

/-- The model with the variables of a document declared in the given order. -/
def declareAll (document : Document) (model : Model) (order : List String) :
    Except ModelError Model :=
  order.foldlM (fun model name => do
    let (model, _) ← completed
      (model.declare (.ofText name) (document.boundsOf name) (document.kindOf name))
    return model) model

/-- The model with numbered rows added as constraints. -/
def addRows (beginning : String) (order : List String) (model : Model)
    (rows : List (Row × Nat)) : Except ModelError Model :=
  rows.foldlM (fun model (row, index) => do
    let expr ← row.expr.resolve order
    let (model, _) ← completed
      (model.addConstraint (row.nameAt beginning index) expr row.relation row.rhs)
    return model) model

/-- The model that a document without conflicting kinds denotes. -/
def assemble (beginning : String) (document : Document) : Except ModelError Model := do
  let order := document.declarationOrder
  let model ← declareAll document .empty order
  let objective ← document.objective.expr.resolve order
  let (model, _) ← completed (model.setObjective document.objective.sense objective)
  addRows beginning order model document.rows.zipIdx

/-- The beginning of the names of rows without a label. -/
def defaultRowBeginning : String :=
  "R"

/-- The model that a document denotes, numbered row names beginning as given. -/
def ofDocument (document : Document) (beginning : String) : Except CompileError Model :=
  match document.binaries.find? fun name => document.generals.contains name with
  | some name => .error (.conflictingKind name)
  | none => (assemble beginning document).mapError .model

/-- The model that a text denotes. -/
def read (source : String) : Except CompileError Model :=
  match Document.parse source with
  | .error error => .error (.parse error)
  | .ok document => ofDocument document defaultRowBeginning

end Model

end LinearProgram
