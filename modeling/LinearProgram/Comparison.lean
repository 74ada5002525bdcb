import LinearProgram.Header

/-!
# Comparison of LP texts

Two texts are equivalent when their significant lines agree: lines without the blanks
around them, leaving out empty lines and comments that carry a signature.
-/

namespace LinearProgram

/-- The first difference of two texts; lines count from one. -/
inductive LineDifference where
  | line (number : Nat) (expected actual : String)
  | length (expected actual : Nat)
deriving DecidableEq

namespace LineDifference

def message : LineDifference → String
  | line number expected actual =>
    "Line " ++ toString number ++ " differs: expected `" ++ expected ++ "`, found `" ++ actual ++
      "`"
  | length expected actual =>
    "Expected " ++ toString expected ++ " lines, found " ++ toString actual

end LineDifference

/-- Whether a line is a comment that begins with the mark of a signature. -/
def isSignatureLine : List Char → Bool
  | '\\' :: comment => (signatureMark? (Text.trimLeft comment)).isSome
  | _ => false

/-- The lines that count in a comparison. -/
def significantLines (cs : List Char) : List (List Char) :=
  ((Text.splitOn '\n' cs).map Text.trim).filter fun line =>
    !line.isEmpty && !isSignatureLine line

/-- The first two different lines, with their number when counting starts as given. -/
def differenceFrom? (number : Nat) :
    List (List Char) → List (List Char) → Option LineDifference
  | want :: wants, got :: gots =>
    if want = got then differenceFrom? (number + 1) wants gots
    else some (.line number (String.ofList want) (String.ofList got))
  | _, _ => none

/-- The first difference of two texts, if they are not equivalent. -/
def difference? (expected actual : String) : Option LineDifference :=
  let wants := significantLines expected.toList
  let gots := significantLines actual.toList
  match differenceFrom? 1 wants gots with
  | some difference => some difference
  | none =>
    if wants.length = gots.length then none else some (.length wants.length gots.length)

end LinearProgram
