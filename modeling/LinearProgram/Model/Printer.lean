import LinearProgram.Layout
import LinearProgram.Model.Validity
import LinearProgram.Signature

/-!
# Writing models

A model is written as LP text: a header of comments, and a body from the objective to
the end.  The body has every constraint, the bounds that are not the default, and the
names of integer and binary variables; it is rendered before the header so that the
header can carry its signature.  A program that writes a model has to hold the whole text,
and it stops without a result when the text outgrows what can be held.
-/

namespace LinearProgram

/-- What a valid model never shows while it is written. -/
inductive Inconsistency where
  | missingObjective
  | emptyConstraint (name : Name)
  | undeclared (id : VariableId)
deriving DecidableEq

def Inconsistency.message : Inconsistency → String
  | missingObjective => "objective missing after validation"
  | emptyConstraint name => "constraint `" ++ name.text ++ "` has no terms"
  | undeclared id => id.text ++ " is not declared"

inductive WriteError where
  | invalid (error : ModelError)
  | inconsistent (cause : Inconsistency)

def WriteError.message : WriteError → String
  | invalid error => "Model cannot be written: " ++ error.message
  | inconsistent cause => "Internal inconsistency while writing: " ++ cause.message

/-- How an attempt to write ends. -/
inductive WriteOutcome (α : Type) where
  | ok (value : α)
  | error (error : WriteError)
  /-- A text outgrows what can be held; the program stops and gives nothing back. -/
  | overflow

namespace WriteOutcome

def bind {α β : Type} (outcome : WriteOutcome α) (next : α → WriteOutcome β) : WriteOutcome β :=
  match outcome with
  | ok value => next value
  | error cause => error cause
  | overflow => overflow

instance : Monad WriteOutcome where
  pure := ok
  bind := bind

/-- A text that is held has fewer bytes than this. -/
def textLimit : Nat :=
  9223372036854775808

/-- A rendered text, if it can be held. -/
def hold : Except WriteError String → WriteOutcome String
  | .error cause => error cause
  | .ok text => if text.utf8ByteSize < textLimit then ok text else overflow

end WriteOutcome

namespace Model

/-- A line of a header that says what the text is. -/
def banner : List Char :=
  "\\ LP format - for model browsing.".toList

/-- The written name of a variable: the declared one, or a letter and the number of its id. -/
def variableLabel (options : WriteOptions) (entry : Variable) : List Char :=
  if options.declaredNames then entry.name.chars else 'x' :: Nat.toDigits 10 entry.id.index

/-- The written name of a constraint: the declared one, or a letter and the number of its id. -/
def constraintLabel (options : WriteOptions) (entry : Constraint) : List Char :=
  if options.declaredNames then entry.name.chars else 'c' :: Nat.toDigits 10 entry.id.index

/-- A piece with the sign of a value, which the first piece shows only if it is negative. -/
def signedPiece (isFirst : Bool) (value : Binary64) (body : List Char) : List Char :=
  if value.isBelowZero then '-' :: ' ' :: body
  else if isFirst then body
  else '+' :: ' ' :: body

/-- A variable behind its coefficient without sign; a coefficient of one is left out. -/
def termBody (label : List Char) (coefficient : Binary64) : List Char :=
  if coefficient.abs.numEq .one then label else lpNumber coefficient.abs ++ ' ' :: label

/-- The pieces of some terms, the first of which may open an expression. -/
def termPieces (model : Model) (options : WriteOptions) (isFirst : Bool) :
    List (VariableId × Binary64) → Except Inconsistency (List (List Char))
  | [] => .ok []
  | (id, coefficient) :: terms =>
    match model.columns.get? id with
    | none => .error (.undeclared id)
    | some entry => do
      let pieces ← termPieces model options false terms
      let label := variableLabel options entry
      return signedPiece isFirst coefficient (termBody label coefficient) :: pieces

/-- The pieces of the objective; its constant comes last and is zero if it stands alone. -/
def objectivePieces (model : Model) (options : WriteOptions) (expr : LinearExpr) :
    Except Inconsistency (List (List Char)) := do
  let pieces ← termPieces model options true expr.terms
  if !expr.constant.isZero || pieces.isEmpty then
    return pieces ++ [signedPiece pieces.isEmpty expr.constant (lpNumber expr.constant.abs)]
  else
    return pieces

/-- The lines of one constraint. -/
def constraintLines (model : Model) (options : WriteOptions) (entry : Constraint) :
    Except Inconsistency (List Char) :=
  if entry.expr.isEmpty then .error (.emptyConstraint entry.name)
  else do
    let pieces ← termPieces model options true entry.expr.terms
    let relation := entry.relation.text.toList ++ ' ' :: lpNumber entry.effectiveRhs
    let start := ' ' :: (constraintLabel options entry ++ [':'])
    return options.linesAfter start (pieces ++ [relation])

/-- The statement of bounds that are not the default. -/
def boundText? (label : List Char) (bounds : Bounds) : Option (List Char) :=
  let le := " <= ".toList
  if bounds.isDefault then none
  else if bounds.isFixed then some (label ++ " = ".toList ++ lpNumber bounds.lower)
  else if bounds.isFree then some (label ++ " free".toList)
  else if bounds.lower.isZero then some (label ++ le ++ lpNumber bounds.upper)
  else if bounds.lower.isNegativeInfinity then
    some ("-inf".toList ++ le ++ label ++ le ++ lpNumber bounds.upper)
  else if bounds.upper.isPositiveInfinity then
    some (label ++ " >= ".toList ++ lpNumber bounds.lower)
  else some (lpNumber bounds.lower ++ le ++ label ++ le ++ lpNumber bounds.upper)

/-- The bound statements; binary variables have none. -/
def boundTexts (model : Model) (options : WriteOptions) : List (List Char) :=
  model.vars.filterMap fun entry =>
    if entry.kind = .binary then none
    else boundText? (variableLabel options entry) entry.bounds

/-- The written names of the variables of one kind. -/
def labelsOfKind (model : Model) (options : WriteOptions) (kind : VariableKind) :
    List (List Char) :=
  model.vars.filterMap fun entry =>
    if entry.kind = kind then some (variableLabel options entry) else none

def boundsSection (model : Model) (options : WriteOptions) : List Char :=
  match boundTexts model options with
  | [] => []
  | texts => "Bounds\n".toList ++ texts.flatMap fun text => ' ' :: (text ++ ['\n'])

/-- A section that lists names, left out when there are none. -/
def namesSection (options : WriteOptions) (title : String) (names : List (List Char)) :
    List Char :=
  match names with
  | [] => []
  | names => title.toList ++ '\n' :: options.linesFrom [' '] names

/-- The words with which the objective begins. -/
def senseKeyword : Sense → String
  | .minimize => "Minimize"
  | .maximize => "Maximize"

/-- Everything behind the header. -/
def body (model : Model) (options : WriteOptions) : Except Inconsistency (List Char) :=
  match model.objective with
  | none => .error .missingObjective
  | some objective => do
    let pieces ← objectivePieces model options objective.expr
    let rows ← model.constraints.mapM (constraintLines model options)
    return (senseKeyword objective.sense).toList ++ '\n' ::
      options.linesFrom [' ', ' '] pieces ++ "Subject To\n".toList ++ rows.flatten ++
      boundsSection model options ++
      namesSection options "Generals" (labelsOfKind model options .integer) ++
      namesSection options "Binaries" (labelsOfKind model options .binary) ++ "End\n".toList

/-- The comment lines before a body. -/
def header (options : WriteOptions) (body : List Char) : List Char :=
  banner ++ '\n' ::
    if options.signature then
      "\\ Signature: ".toList ++ (Signature.ofText (String.ofList body)).chars ++ ['\n']
    else
      []

/-- The LP text of a model without problems, however long it is. -/
def render (model : Model) (options : WriteOptions) : Except WriteError String :=
  match model.ensureValid with
  | .error error => .error (.invalid error)
  | .ok () =>
    match model.body options with
    | .error cause => .error (.inconsistent cause)
    | .ok body => .ok (String.ofList (header options body ++ body))

/--
The LP text of a model without problems, if it can be held.

The indentation of continued lines is made before the first line, so that it has to fit
even if no line is continued.  A text grows in steps that may double the room it takes, so
a program may also stop at a text that has more than half of the bytes it could hold.
-/
def write (model : Model) (options : WriteOptions) : WriteOutcome String :=
  if model.issues.isEmpty && WriteOutcome.textLimit ≤ options.continuationIndent then .overflow
  else .hold (model.render options)

end Model

end LinearProgram
