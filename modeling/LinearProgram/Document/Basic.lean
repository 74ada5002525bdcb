import LinearProgram.Model.Basic
import LinearProgram.Token.Basic

/-!
# Documents

A document is an LP file as it is written, before names are resolved: an objective,
rows, bound statements, and the names listed as integer and as binary variables.  Parts
carry the spans at which they stand.
-/

namespace LinearProgram

/-- A coefficient and the name that it stands before. -/
structure WrittenTerm where
  span : Span
  coefficient : Binary64
  name : String
deriving DecidableEq

/-- Terms in the order of writing, and the sum of the numbers without a variable. -/
structure WrittenExpr where
  terms : List WrittenTerm
  constant : Binary64
deriving DecidableEq

structure ObjectiveSection where
  span : Span
  sense : Sense
  label : Option String
  expr : WrittenExpr
deriving DecidableEq

/-- One constraint, which may be wrapped over several lines. -/
structure Row where
  span : Span
  label : Option String
  expr : WrittenExpr
  relation : Relation
  rhs : Binary64
deriving DecidableEq

/-- A statement about the bounds of a variable; a side that it does not mention stays. -/
structure BoundStatement where
  span : Span
  name : String
  lower : Option Binary64
  upper : Option Binary64
deriving DecidableEq

structure Document where
  signature : Option String
  objective : ObjectiveSection
  rows : List Row
  bounds : List BoundStatement
  generals : List String
  binaries : List String
deriving DecidableEq

namespace Document

/-- Every mention of a variable, in the order of the sections. -/
def mentions (document : Document) : List String :=
  document.objective.expr.terms.map WrittenTerm.name ++
    document.rows.flatMap (fun row => row.expr.terms.map WrittenTerm.name) ++
    document.bounds.map BoundStatement.name ++ document.generals ++ document.binaries

/-- The variables in order of first appearance. -/
def variableNames (document : Document) : List String :=
  document.mentions.eraseDups

end Document

end LinearProgram
