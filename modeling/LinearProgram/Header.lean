import LinearProgram.Signature

/-!
# Headers of LP text

LP text may begin with comment lines, one of which can carry a signature of everything
after them.  Checking cuts the header off, signs the rest, and compares.
-/

namespace LinearProgram

namespace Header

/-- The characters of a text behind its first line. -/
def afterLine (cs : List Char) : List Char :=
  (cs.dropWhile (· ≠ '\n')).drop 1

def firstLine (cs : List Char) : List Char :=
  cs.takeWhile (· ≠ '\n')

/-- The text of the comment that a line holds, if it holds nothing else. -/
def commentOf? (line : List Char) : Option (List Char) :=
  match Text.trimLeft line with
  | '\\' :: comment => some comment
  | _ => none

theorem length_afterLine_lt {cs comment : List Char}
    (h : commentOf? (firstLine cs) = some comment) :
    (afterLine cs).length < cs.length := by
  cases cs with
  | nil => simp [firstLine, commentOf?, Text.trimLeft] at h
  | cons c cs =>
      have hle := (List.dropWhile_sublist (fun c => decide (c ≠ '\n')) (l := cs)).length_le
      unfold afterLine
      rw [List.dropWhile_cons]
      split <;> simp only [List.length_drop, List.length_cons] at hle ⊢ <;> omega

/-- The embedded signature text and the text behind the comment lines at the beginning. -/
def splitChars (cs : List Char) : Option (List Char) × List Char :=
  match _hcomment : commentOf? (firstLine cs) with
  | some comment =>
    let (later, body) := splitChars (afterLine cs)
    ((signatureMark? (Text.trim comment)).or later, body)
  | none => (none, cs)
termination_by cs.length
decreasing_by exact length_afterLine_lt _hcomment

/-- The embedded signature text, if there is one, and the body. -/
def split (text : String) : Option String × String :=
  let (embedded, body) := splitChars text.toList
  (embedded.map String.ofList, String.ofList body)

end Header

/-- How the signature in a header relates to the body. -/
inductive SignatureCheck where
  | matching (actual : Signature)
  | mismatch (embedded : String) (actual : Signature)
  | missing (actual : Signature)
deriving DecidableEq

namespace SignatureCheck

/-- The signature of the body. -/
def actual : SignatureCheck → Signature
  | matching actual => actual
  | mismatch _ actual => actual
  | missing actual => actual

def isMatch : SignatureCheck → Bool
  | matching _ => true
  | _ => false

/-- The signature in the header compared with that of the body. -/
def ofText (text : String) : SignatureCheck :=
  let (embedded, body) := Header.split text
  let actual := Signature.ofText body
  match embedded with
  | none => missing actual
  | some embedded =>
    match Signature.parse embedded with
    | .ok found => if found = actual then matching actual else mismatch embedded actual
    | .error _ => mismatch embedded actual

end SignatureCheck

end LinearProgram
