import LinearProgram.Model.Basic

/-!
# Validity of models

A model can be written when it has an objective, every constraint has a term, written
names are distinct, expressions refer to declared variables, and all numbers are
finite.  Checking collects every problem instead of stopping at the first.
-/

namespace LinearProgram

namespace Model

/-- The variables whose written name occurs earlier in the table. -/
def repeatedVariables (seen : List String) : List Variable → List ModelError
  | [] => []
  | entry :: entries =>
    let issues := if seen.contains entry.name.text then [.duplicateName entry.name] else []
    issues ++ repeatedVariables (entry.name.text :: seen) entries

/-- The references of an expression to undeclared variables, then its first bad number. -/
def exprIssues (model : Model) (expr : LinearExpr) (owner : String) : List ModelError :=
  let unknown := (expr.vars.filter fun id => !model.columns.contains id).map fun id =>
    ModelError.unknownVariable (id.text ++ " in " ++ owner)
  unknown ++ (expr.firstNonFinite?.map ModelError.nonFinite).toList

def objectiveIssues (model : Model) : List ModelError :=
  match model.objective with
  | some objective => model.exprIssues objective.expr "objective"
  | none => [.missingObjective]

/-- The problems of one constraint, given the written names of the earlier ones. -/
def constraintIssues (model : Model) (seen : List String) (entry : Constraint) :
    List ModelError :=
  (if seen.contains entry.name.text then [.duplicateConstraintName entry.name] else []) ++
    (if entry.expr.isEmpty then [.emptyConstraint entry.name] else []) ++
    model.exprIssues entry.expr ("constraint `" ++ entry.name.text ++ "`") ++
    (if entry.rhs.isFinite then [] else [.nonFinite entry.rhs])

def allConstraintIssues (model : Model) (seen : List String) : List Constraint → List ModelError
  | [] => []
  | entry :: entries =>
    model.constraintIssues seen entry ++
      model.allConstraintIssues (entry.name.text :: seen) entries

/-- Every problem of a model; none means that it can be written. -/
def issues (model : Model) : List ModelError :=
  repeatedVariables [] model.vars ++ model.objectiveIssues ++
    model.allConstraintIssues [] model.constraints

/-- A model without problems, or an error that collects them all. -/
def ensureValid (model : Model) : Except ModelError Unit :=
  match model.issues with
  | [] => .ok ()
  | issues => .error (.modelInvalid issues)

end Model

end LinearProgram
