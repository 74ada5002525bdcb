import LinearProgram.Decimal.Style

/-!
# Layout of written models

How numbers are written, and how pieces of text are put into lines: each piece stays
whole, and a line breaks before a piece that would cross the last column.  Columns are
bytes of UTF-8, which in written models are characters.
-/

namespace LinearProgram

/-- Positional from `1e-5` up to below `1e15`, without a sign on zero. -/
def NumberStyle.lp : NumberStyle where
  isPositional exponent := -5 ≤ exponent && exponent < 15
  wholeSuffix := []
  exponentSign := []
  signsZero := false
  ties := .toLarger
  nanText := ['N', 'a', 'N']
  infinityText := ['i', 'n', 'f']
  negativeInfinityText := ['-', 'i', 'n', 'f']

/-- A number as it is written in LP text. -/
def lpNumber (x : Binary64) : List Char :=
  NumberStyle.lp.render x

/-- The bytes that a text takes up in a line. -/
def byteLength : List Char → Nat
  | [] => 0
  | c :: cs => c.utf8Size + byteLength cs

@[simp] theorem byteLength_append (cs ds : List Char) :
    byteLength (cs ++ ds) = byteLength cs + byteLength ds := by
  induction cs with
  | nil => exact (Nat.zero_add _).symm
  | cons c cs ih => rw [List.cons_append, byteLength, byteLength, ih, Nat.add_assoc]

@[simp] theorem byteLength_cons_space (cs : List Char) :
    byteLength (' ' :: cs) = 1 + byteLength cs :=
  rfl

/-- The choices in writing a model. -/
structure WriteOptions where
  maxLineLength : Nat
  continuationIndent : Nat
  /-- Whether the header has a signature of the body. -/
  signature : Bool
  /-- Whether variables and constraints keep their names, or are numbered. -/
  declaredNames : Bool
deriving DecidableEq

namespace WriteOptions

def default : WriteOptions :=
  ⟨80, 3, true, true⟩

instance : Inhabited WriteOptions := ⟨default⟩

/--
Pieces behind a line that already has the given number of bytes.

A piece goes behind a space, or onto a line of its own when it would cross the last
column.
-/
def fill (options : WriteOptions) (used : Nat) : List (List Char) → List Char
  | [] => []
  | piece :: pieces =>
    if used + 1 + byteLength piece > options.maxLineLength then
      '\n' :: (List.replicate options.continuationIndent ' ' ++ piece ++
        fill options (options.continuationIndent + byteLength piece) pieces)
    else
      ' ' :: (piece ++ fill options (used + 1 + byteLength piece) pieces)

/-- A line that begins with given text, and pieces that all follow a space or a break. -/
def linesAfter (options : WriteOptions) (start : List Char) (pieces : List (List Char)) :
    List Char :=
  start ++ fill options (byteLength start) pieces ++ ['\n']

/-- A line whose first piece stands right behind the given text. -/
def linesFrom (options : WriteOptions) (start : List Char) : List (List Char) → List Char
  | [] => start ++ ['\n']
  | piece :: pieces => options.linesAfter (start ++ piece) pieces

end WriteOptions

end LinearProgram
