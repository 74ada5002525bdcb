import LinearProgram.Document.Basic
import LinearProgram.Outline

/-!
# Outlines of documents

Every part of a document under its name, in the order in which the parts are shown.
-/

namespace LinearProgram

def Span.outline (span : Span) : Outline :=
  .record "Span" [("start", .count span.start), ("end", .count span.stop)]

def Sense.outline : Sense → Outline
  | .minimize => .word "Minimize"
  | .maximize => .word "Maximize"

def Relation.outline : Relation → Outline
  | .le => .word "Le"
  | .ge => .word "Ge"
  | .eq => .word "Eq"

def WrittenTerm.outline (term : WrittenTerm) : Outline :=
  .record "ParsedTerm"
    [("span", term.span.outline), ("coeff", .number term.coefficient), ("var", .text term.name)]

def WrittenExpr.outline (expr : WrittenExpr) : Outline :=
  .record "ParsedExpr"
    [("terms", .list (expr.terms.map WrittenTerm.outline)), ("constant", .number expr.constant)]

def ObjectiveSection.outline (objective : ObjectiveSection) : Outline :=
  .record "ObjectiveSection"
    [("span", objective.span.outline), ("sense", objective.sense.outline),
      ("label", .ofOption .text objective.label), ("expr", objective.expr.outline)]

def Row.outline (row : Row) : Outline :=
  .record "Row"
    [("span", row.span.outline), ("label", .ofOption .text row.label),
      ("expr", row.expr.outline), ("relation", row.relation.outline), ("rhs", .number row.rhs)]

def BoundStatement.outline (statement : BoundStatement) : Outline :=
  .record "BoundStatement"
    [("span", statement.span.outline), ("var", .text statement.name),
      ("lower", .ofOption .number statement.lower), ("upper", .ofOption .number statement.upper)]

def Document.outline (document : Document) : Outline :=
  .record "LpDocument"
    [("signature", .ofOption .text document.signature),
      ("objective", document.objective.outline), ("rows", .list (document.rows.map Row.outline)),
      ("bounds", .list (document.bounds.map BoundStatement.outline)),
      ("generals", .list (document.generals.map .text)),
      ("binaries", .list (document.binaries.map .text))]

end LinearProgram
