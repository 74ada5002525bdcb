import LinearProgram.Token.Basic

/-!
# Parse errors

Why a text is not an LP document: what was expected where, and what stood there.
-/

namespace LinearProgram

/-- What can be missing at a place in a document. -/
inductive Expectation where
  | token (kind : TokenKind)
  | objectiveKeyword
  | sectionKeyword
  | sign
  | operand
  | relation
  | number
  | boundStatement
deriving DecidableEq

def Expectation.text : Expectation → String
  | token kind => kind.text
  | objectiveKeyword => "Minimize or Maximize"
  | sectionKeyword => "section keyword"
  | sign => "+ or -"
  | operand => "coefficient or variable"
  | relation => "<=, >= or ="
  | number => "number"
  | boundStatement => "bound statement"

inductive ParseError where
  | unexpectedToken (expected : Expectation) (found : Token)
  | secondObjective (span : Span)
  | unexpectedEnd
  | invalidNumber (text : String)
  | missingObjective
deriving DecidableEq

namespace ParseError

def unexpectedText (expected found : String) (span : Span) : String :=
  "Unexpected token: expected " ++ expected ++ ", found " ++ found ++ " at position " ++ span.text

def message : ParseError → String
  | unexpectedToken expected found =>
    unexpectedText expected.text (found.kind.text ++ " `" ++ found.text ++ "`") found.span
  | secondObjective span =>
    unexpectedText "constraint, bounds or integrality section" "second objective section" span
  | unexpectedEnd => "Unexpected end of file"
  | invalidNumber text => "Invalid number: " ++ text
  | missingObjective => "Missing Minimize or Maximize section"

end ParseError

end LinearProgram
