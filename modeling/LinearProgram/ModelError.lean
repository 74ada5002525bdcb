import LinearProgram.Variable

/-!
# Errors of models

What can be wrong with a name, an expression, a constraint or a whole model.  Each
error has a code, and a message that begins with the code in square brackets.
-/

namespace LinearProgram

/-- The two sorts of entries that a model numbers. -/
inductive EntrySort where
  | vars
  | constraints
deriving DecidableEq

def EntrySort.idText : EntrySort → String
  | vars => "var"
  | constraints => "row"

inductive ModelError where
  | duplicateName (name : Name)
  | invalidBounds (name : Name) (bounds : Bounds)
  | invalidName (name : Name) (fault : NameFault)
  | zeroCoefficient (id : VariableId)
  | nonFinite (value : Binary64)
  | unknownVariable (mention : String)
  | duplicateConstraintName (name : Name)
  | emptyConstraint (name : Name)
  | objectiveAlreadySet
  | missingObjective
  | capacityExceeded (sort : EntrySort)
  | modelInvalid (issues : List ModelError)

namespace ModelError

def code : ModelError → String
  | duplicateName _ => "VARIABLE_DUPLICATE_NAME"
  | invalidBounds _ _ => "VARIABLE_INVALID_BOUNDS"
  | invalidName _ _ => "NAME_INVALID"
  | zeroCoefficient _ => "EXPR_ZERO_COEFFICIENT"
  | nonFinite _ => "EXPR_NON_FINITE"
  | unknownVariable _ => "VARIABLE_UNKNOWN"
  | duplicateConstraintName _ => "CONSTRAINT_DUPLICATE_NAME"
  | emptyConstraint _ => "CONSTRAINT_EMPTY"
  | objectiveAlreadySet => "OBJECTIVE_ALREADY_SET"
  | missingObjective => "OBJECTIVE_MISSING"
  | capacityExceeded _ => "MODEL_CAPACITY_EXCEEDED"
  | modelInvalid _ => "MODEL_INVALID"

/-- The problems collected in an invalid model; other errors collect none. -/
def issues : ModelError → List ModelError
  | modelInvalid issues => issues
  | _ => []

mutual

/-- The message after the code. -/
def description : ModelError → String
  | duplicateName name => "variable `" ++ name.text ++ "` is already declared"
  | invalidBounds name bounds =>
    "variable `" ++ name.text ++ "` has invalid bounds: lower (" ++ bounds.lower.plainText ++
      ") > upper (" ++ bounds.upper.plainText ++ ")"
  | invalidName name fault => "`" ++ name.text ++ "`: " ++ fault.message
  | zeroCoefficient id => "zero coefficient for " ++ id.text ++ "; omit the term instead"
  | nonFinite value => "value must be finite (got " ++ value.plainText ++ ")"
  | unknownVariable mention => "unknown variable " ++ mention
  | duplicateConstraintName name => "constraint `" ++ name.text ++ "` already exists"
  | emptyConstraint name => "constraint `" ++ name.text ++ "` has no variable terms"
  | objectiveAlreadySet => "model already has an objective"
  | missingObjective => "model has no objective defined"
  | capacityExceeded sort =>
    "no " ++ sort.idText ++ " id left; a model holds at most 2^32 of each"
  | modelInvalid issues =>
    toString issues.length ++ " problem(s): " ++ String.intercalate "; " (messages issues)

/-- The messages of several errors, each with its code. -/
def messages : List ModelError → List String
  | [] => []
  | error :: errors => ("[" ++ error.code ++ "] " ++ error.description) :: messages errors

end

def message (error : ModelError) : String :=
  "[" ++ error.code ++ "] " ++ error.description

end ModelError

end LinearProgram
