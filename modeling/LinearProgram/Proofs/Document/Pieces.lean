import LinearProgram.Proofs.Document.Naturality
import LinearProgram.Proofs.Binary64.Sign
import LinearProgram.Proofs.Layout.Breaks

/-!
# Documents as tokens

A document determines the tokens that stand for it, apart from the places at which long
lines break.  The parts below are the ones that a written model consists of: labelled
rows, bound statements with one or two sides, and lists of names.  A document is legible
when its numbers and names can be told from the words around them.
-/

namespace LinearProgram

open Token

/-- A word that does not mean anything by itself in an LP file. -/
def Unreserved (word : String) : Prop :=
  asciiLower word ∉ Name.reservedWords

/-- The sign before a part of an expression; the first part shows it only if negative. -/
def signTokens (isFirst : Bool) (value : Binary64) : List Token :=
  if value.isBelowZero then [minus]
  else if isFirst then []
  else [plus]

namespace WrittenTerm

def tokens (isFirst : Bool) (term : WrittenTerm) : List Token :=
  signTokens isFirst term.coefficient ++
    ((if term.coefficient.abs.numEq .one then [] else ofNumber term.coefficient.abs) ++
      [plain .ident term.name])

structure Legible (term : WrittenTerm) : Prop where
  finite : term.coefficient.isFinite = true
  nonzero : term.coefficient.isZero = false
  name : Unreserved term.name

end WrittenTerm

namespace WrittenExpr

/-- The pieces of some terms, the first of which may open an expression. -/
def termPieces (isFirst : Bool) : List WrittenTerm → List (List Token)
  | [] => []
  | term :: terms => term.tokens isFirst :: termPieces false terms

def constantTokens (isFirst : Bool) (value : Binary64) : List Token :=
  signTokens isFirst value ++ ofNumber value.abs

/-- Whether an expression shows its constant. -/
def showsConstant (expr : WrittenExpr) : Bool :=
  !expr.constant.isZero || expr.terms.isEmpty

def pieces (expr : WrittenExpr) : List (List Token) :=
  termPieces true expr.terms ++
    if expr.showsConstant then [constantTokens expr.terms.isEmpty expr.constant] else []

/-- An expression without terms is written as its constant, whatever this is. -/
theorem pieces_of_terms_eq_nil
    {expr : WrittenExpr} (h : expr.terms = []) :
    expr.pieces = [constantTokens true expr.constant] := by
  have hshows : expr.showsConstant = true := by
    rw [showsConstant, h, List.isEmpty_nil, Bool.or_true]
  rw [pieces, hshows, h]
  rfl

theorem pieces_of_terms_eq_cons
    {expr : WrittenExpr} {term : WrittenTerm} {terms : List WrittenTerm}
    (h : expr.terms = term :: terms) :
    expr.pieces = term.tokens true :: (termPieces false terms ++
      if expr.showsConstant then [constantTokens false expr.constant] else []) := by
  rw [pieces, h]
  rfl

structure Legible (expr : WrittenExpr) : Prop where
  terms : ∀ term ∈ expr.terms, term.Legible
  finite : expr.constant.isFinite = true
  unsigned : expr.constant.dropZeroSign = expr.constant

end WrittenExpr

namespace Row

/-- The pieces behind the label of a row. -/
def pieces (row : Row) : List (List Token) :=
  row.expr.pieces ++ [ofRelation row.relation :: ofNumber row.rhs]

structure Legible (row : Row) : Prop where
  label : row.label.isSome
  expr : row.expr.Legible
  rhs : row.rhs.isNaN = false
  unsigned : row.rhs.dropZeroSign = row.rhs

/-- Tokens of a row on a line of its own. -/
inductive Laid (row : Row) : List Token → Prop where
  | mk {label : String} {broken : List Token} (hlabel : row.label = some label)
      (hbroken : Broken row.pieces broken) :
      Laid row (plain .ident label :: colon :: broken)

end Row

namespace BoundStatement

def tokens (statement : BoundStatement) : List Token :=
  let name := plain .ident statement.name
  match statement.lower, statement.upper with
  | none, none => [name]
  | none, some upper => name :: ofRelation .le :: ofNumber upper
  | some lower, none => name :: ofRelation .ge :: ofNumber lower
  | some lower, some upper =>
    if lower = .infinity true ∧ upper = .infinity false then [name, plain .ident "free"]
    else if lower = upper then name :: ofRelation .eq :: ofNumber lower
    else ofNumber lower ++ ofRelation .le :: name :: ofRelation .le :: ofNumber upper

/-- A side that can be written and read back. -/
def LegibleSide (side : Option Binary64) : Prop :=
  ∀ value ∈ side, value.isNaN = false ∧ value.dropZeroSign = value

structure Legible (statement : BoundStatement) : Prop where
  name : Unreserved statement.name
  sides : statement.lower.isSome ∨ statement.upper.isSome
  lower : LegibleSide statement.lower
  upper : LegibleSide statement.upper
  below : statement.lower ≠ some (.infinity false)

end BoundStatement

/-- Items that each end their line. -/
inductive Lines (laid : α → List Token → Prop) : List α → List Token → Prop where
  | nil : Lines laid [] []
  | cons {x : α} {xs : List α} {tokens later : List Token} :
      laid x tokens → Lines laid xs later → Lines laid (x :: xs) (tokens ++ newline :: later)

/-- Names one after the other, on lines that may break between them. -/
def namePieces (names : List String) : List (List Token) :=
  names.map fun name => [plain .ident name]

namespace Document

/-- Words that open a section, and what it holds, if it holds anything. -/
inductive LaidSection (words : List Token) (laid : List α → List Token → Prop) :
    List α → List Token → Prop where
  | absent : LaidSection words laid [] []
  | present {x : α} {xs : List α} {tokens : List Token} :
      laid (x :: xs) tokens → LaidSection words laid (x :: xs) (words ++ newline :: tokens)

def LaidNames (names : List String) (tokens : List Token) : Prop :=
  ∃ broken, Broken (namePieces names) broken ∧ tokens = broken ++ [newline]

def senseWord : Sense → Token
  | .minimize => plain .ident "Minimize"
  | .maximize => plain .ident "Maximize"

/-- Tokens that spell a document, from the objective to the end. -/
inductive Laid (document : Document) : List Token → Prop where
  | mk {objective rows bounds generals binaries : List Token}
      (hobjective : Broken document.objective.expr.pieces objective)
      (hrows : Lines Row.Laid document.rows rows)
      (hbounds : LaidSection [plain .ident "Bounds"]
        (Lines fun statement tokens => tokens = statement.tokens) document.bounds bounds)
      (hgenerals : LaidSection [plain .ident "Generals"] LaidNames document.generals generals)
      (hbinaries : LaidSection [plain .ident "Binaries"] LaidNames document.binaries binaries) :
      Laid document
        (senseWord document.objective.sense :: newline :: (objective ++ newline ::
          plain .ident "Subject" :: plain .ident "To" :: newline :: (rows ++ (bounds ++
            (generals ++ (binaries ++ [plain .ident "End", newline]))))))

structure Legible (document : Document) : Prop where
  label : document.objective.label = none
  objective : document.objective.expr.Legible
  rows : ∀ row ∈ document.rows, row.Legible
  bounds : ∀ statement ∈ document.bounds, statement.Legible
  generals : ∀ name ∈ document.generals, Unreserved name
  binaries : ∀ name ∈ document.binaries, Unreserved name

end Document

end LinearProgram
