import LinearProgram.Model.Printer
import LinearProgram.Proofs.Document.Pieces

/-!
# Texts of documents

A document has a text of its own, part by part: expressions, rows, bound statements of
every shape, and the sections that list names, which are left out when they are empty.

Where its names are words, the text of a document spells the tokens that stand for the
document, and this is so wherever the options let lines break.  The main statement is
`Document.Worded.exists_laid`.
-/

namespace LinearProgram

open Token

/-! ## Texts -/

namespace WrittenExpr

/-- The texts of some terms, the first of which may open an expression. -/
def termTexts (isFirst : Bool) : List WrittenTerm → List (List Char)
  | [] => []
  | term :: terms =>
    Model.signedPiece isFirst term.coefficient
      (Model.termBody term.name.toList term.coefficient) :: termTexts false terms

/-- The texts of the terms, and of the constant if the expression shows it. -/
def texts (expr : WrittenExpr) : List (List Char) :=
  termTexts true expr.terms ++
    if expr.showsConstant then
      [Model.signedPiece expr.terms.isEmpty expr.constant (lpNumber expr.constant.abs)]
    else []

end WrittenExpr

/-- The lines of a row. -/
def Row.text (options : WriteOptions) (row : Row) : List Char :=
  options.linesAfter (' ' :: ((row.label.getD "").toList ++ [':']))
    (row.expr.texts ++ [row.relation.text.toList ++ ' ' :: lpNumber row.rhs])

/-- A bound statement, in the shape that its sides call for. -/
def BoundStatement.text (statement : BoundStatement) : List Char :=
  let name := statement.name.toList
  let le := " <= ".toList
  match statement.lower, statement.upper with
  | none, none => name
  | none, some upper => name ++ le ++ lpNumber upper
  | some lower, none => name ++ " >= ".toList ++ lpNumber lower
  | some lower, some upper =>
    if lower = upper then name ++ " = ".toList ++ lpNumber lower
    else if lower = .infinity true ∧ upper = .infinity false then name ++ " free".toList
    else lpNumber lower ++ le ++ name ++ le ++ lpNumber upper

namespace Document

/-- The section of bounds, left out when there are none. -/
def boundsText : List (List Char) → List Char
  | [] => []
  | texts => "Bounds\n".toList ++ texts.flatMap fun text => ' ' :: (text ++ ['\n'])

/-- The text of a document from the objective to the end. -/
def bodyText (options : WriteOptions) (document : Document) : List Char :=
  (Model.senseKeyword document.objective.sense).toList ++ '\n' ::
    options.linesFrom [' ', ' '] document.objective.expr.texts ++ "Subject To\n".toList ++
    (document.rows.map (Row.text options)).flatten ++
    boundsText (document.bounds.map BoundStatement.text) ++
    Model.namesSection options "Generals" (document.generals.map String.toList) ++
    Model.namesSection options "Binaries" (document.binaries.map String.toList) ++ "End\n".toList

end Document

/-! ## Words -/

/-- A text that is one word. -/
def IsWord (word : String) : Prop :=
  Spells word.toList [plain .ident word]

theorem isWord_of_toList_eq
    {word : String} {c : Char} {cs : List Char} (hword : word.toList = c :: cs)
    (hc : startsWord c = true) (hcs : (c :: cs).all isIdentChar = true) : IsWord word := by
  have hspells := spells_word hc hcs
  rw [ident, ← hword, String.ofList_toList] at hspells
  exact hspells

theorem IsWord.line
    {word : String} (h : IsWord word) :
    SpellsLines (word.toList ++ ['\n']) [plain .ident word, newline] :=
  Spells.line h

/-! ## Expressions and rows -/

theorem spells_signedPiece
    (isFirst : Bool) (value : Binary64) {body : List Char} {tokens : List Token}
    (h : Spells body tokens) :
    Spells (Model.signedPiece isFirst value body) (signTokens isFirst value ++ tokens) := by
  have hspace : SpellsLines [' '] [] := spellsLines_spacing (by decide)
  rw [Model.signedPiece, signTokens]
  split
  · exact (spellsLines_minus.append hspace).append_spells h
  · split
    · exact h
    · exact (spellsLines_plus.append hspace).append_spells h

theorem spells_termBody
    {label : List Char} {tokens : List Token} (h : Spells label tokens)
    (coefficient : Binary64) :
    Spells (Model.termBody label coefficient)
      ((if coefficient.abs.numEq .one then [] else ofNumber coefficient.abs) ++ tokens) := by
  rw [Model.termBody]
  split
  · exact h
  · exact (spells_lpNumber coefficient.abs).append_space h

namespace WrittenExpr

theorem forall₂_termTexts
    (isFirst : Bool) {terms : List WrittenTerm} (h : ∀ term ∈ terms, IsWord term.name) :
    List.Forall₂ Spells (termTexts isFirst terms) (termPieces isFirst terms) := by
  induction terms generalizing isFirst with
  | nil => exact .nil
  | cons term terms ih =>
      have hname : IsWord term.name := h term List.mem_cons_self
      have hterm := spells_signedPiece isFirst term.coefficient
        (spells_termBody hname term.coefficient)
      have hlater : ∀ term ∈ terms, IsWord term.name := by
        intro later hmem
        exact h later (List.mem_cons_of_mem term hmem)
      exact .cons hterm (ih false hlater)

theorem forall₂_texts
    {expr : WrittenExpr} (h : ∀ term ∈ expr.terms, IsWord term.name) :
    List.Forall₂ Spells expr.texts expr.pieces := by
  apply List.rel_append (forall₂_termTexts true h)
  split
  · exact .cons (spells_signedPiece _ _ (spells_lpNumber _)) .nil
  · exact .nil

end WrittenExpr

theorem Row.exists_laid
    {row : Row} {label : String} (hlabel : row.label = some label) (hword : IsWord label)
    (hterms : ∀ term ∈ row.expr.terms, IsWord term.name) (options : WriteOptions) :
    ∃ tokens, row.Laid tokens ∧ SpellsLines (row.text options) (tokens ++ [newline]) := by
  have hspace : SpellsLines [' '] [] := spellsLines_spacing (by decide)
  have hstart := hspace.append (Spells.labelled hword)
  have hrelation := (spells_relation row.relation).append_space (spells_lpNumber row.rhs)
  have hpieces := List.rel_append (WrittenExpr.forall₂_texts hterms) (.cons hrelation .nil)
  obtain ⟨broken, hbroken, hlines⟩ := options.exists_broken_linesAfter hstart.spells hpieces
  refine ⟨_, .mk hlabel hbroken, ?_⟩
  rw [Row.text, hlabel]
  exact hlines

/-! ## Bounds -/

/-- A statement between a name and a number. -/
theorem spells_nameFirst
    {label : List Char} {name : Token} (h : Spells label [name]) (relation : Relation)
    (x : Binary64) :
    Spells (label ++ (' ' :: relation.text.toList ++ [' ']) ++ lpNumber x)
      (name :: ofRelation relation :: ofNumber x) := by
  have hsign := (spells_relation relation).append_space (spells_lpNumber x)
  have hall := h.append_space hsign
  simpa using hall

theorem spells_valueFirst
    {label : List Char} {name : Token} (h : Spells label [name]) (x y : Binary64) :
    Spells (lpNumber x ++ " <= ".toList ++ label ++ " <= ".toList ++ lpNumber y)
      (ofNumber x ++ ofRelation .le :: name :: ofRelation .le :: ofNumber y) := by
  have hbehind := (spells_relation .le).append_space (h.append_space
    ((spells_relation .le).append_space (spells_lpNumber y)))
  have hall := (spells_lpNumber x).append_space hbehind
  simpa [Relation.text] using hall

theorem BoundStatement.spells_text
    {statement : BoundStatement} (h : IsWord statement.name) :
    Spells statement.text statement.tokens := by
  obtain ⟨span, name, lower, upper⟩ := statement
  rcases lower with _ | lower <;> rcases upper with _ | upper
  · exact h
  · exact spells_nameFirst h .le upper
  · exact spells_nameFirst h .ge lower
  simp only [BoundStatement.text, BoundStatement.tokens]
  by_cases hequal : lower = upper
  · have hnotFree : ¬(lower = .infinity true ∧ upper = .infinity false) := by
      rintro ⟨rfl, hupper⟩
      rw [← hequal] at hupper
      exact nomatch hupper
    rw [if_pos hequal, if_neg hnotFree, if_pos hequal]
    exact spells_nameFirst h .eq lower
  rw [if_neg hequal, if_neg hequal]
  split
  · have hfree : IsWord "free" := isWord_of_toList_eq (c := 'f') rfl (by decide) (by decide)
    exact Spells.append_space h hfree
  · exact spells_valueFirst h lower upper

/-! ## Sections -/

/-- Items that are spelled line by line. -/
theorem exists_lines
    {laid : α → List Token → Prop} {text : α → List Char} {xs : List α}
    (h : ∀ x ∈ xs, ∃ tokens, laid x tokens ∧ SpellsLines (text x) (tokens ++ [newline])) :
    ∃ tokens, Lines laid xs tokens ∧ SpellsLines (xs.flatMap text) tokens := by
  induction xs with
  | nil => exact ⟨[], .nil, spellsLines_nil⟩
  | cons x xs ih =>
      obtain ⟨front, hlaid, hspells⟩ := h x List.mem_cons_self
      obtain ⟨tokens, hlines, hlater⟩ := ih fun y hy => h y (List.mem_cons_of_mem x hy)
      refine ⟨_, .cons hlaid hlines, ?_⟩
      have hall := hspells.append hlater
      rwa [List.append_assoc, List.singleton_append] at hall

namespace Document

theorem exists_boundsText
    {statements : List BoundStatement} (h : ∀ statement ∈ statements, IsWord statement.name) :
    ∃ tokens, LaidSection [plain .ident "Bounds"]
        (Lines fun statement tokens => tokens = statement.tokens) statements tokens ∧
      SpellsLines (boundsText (statements.map BoundStatement.text)) tokens := by
  have hspace : SpellsLines [' '] [] := spellsLines_spacing (by decide)
  cases statements with
  | nil => exact ⟨[], .absent, spellsLines_nil⟩
  | cons first statements =>
      have hline : ∀ statement ∈ first :: statements, ∃ tokens, tokens = statement.tokens ∧
          SpellsLines (' ' :: (statement.text ++ ['\n'])) (tokens ++ [newline]) := by
        intro statement hstatement
        have hspells := BoundStatement.spells_text (h statement hstatement)
        exact ⟨_, rfl, hspace.append hspells.line⟩
      obtain ⟨tokens, hlines, hspells⟩ := exists_lines hline
      have hword : IsWord "Bounds" := isWord_of_toList_eq (c := 'B') rfl (by decide) (by decide)
      refine ⟨_, .present hlines, hword.line.append ?_⟩
      rw [List.flatMap_map]
      exact hspells

theorem exists_namesSection
    (options : WriteOptions) {title : String} (htitle : IsWord title) {names : List String}
    (h : ∀ name ∈ names, IsWord name) :
    ∃ tokens, LaidSection [plain .ident title] LaidNames names tokens ∧
      SpellsLines (Model.namesSection options title (names.map String.toList)) tokens := by
  cases names with
  | nil => exact ⟨[], .absent, spellsLines_nil⟩
  | cons first names =>
      have hpieces : List.Forall₂ Spells ((first :: names).map String.toList)
          (namePieces (first :: names)) := by
        rw [namePieces, List.forall₂_map_left_iff, List.forall₂_map_right_iff, List.forall₂_same]
        exact h
      obtain ⟨broken, hbroken, hspells⟩ := options.exists_broken_linesFrom 1 hpieces
      refine ⟨_, .present ⟨broken, hbroken, rfl⟩, ?_⟩
      have hall := htitle.line.append hspells
      rwa [List.append_assoc] at hall

/-! ## Documents -/

/-- A document whose names are words, rows being labelled. -/
structure Worded (document : Document) : Prop where
  mentions : ∀ name ∈ document.mentions, IsWord name
  labels : ∀ row ∈ document.rows, ∃ label, row.label = some label ∧ IsWord label

theorem spellsLines_senseKeyword (sense : Sense) :
    SpellsLines ((Model.senseKeyword sense).toList ++ ['\n']) [senseWord sense, newline] := by
  cases sense with
  | minimize =>
      have hword : IsWord "Minimize" := isWord_of_toList_eq (c := 'M') rfl (by decide) (by decide)
      exact hword.line
  | maximize =>
      have hword : IsWord "Maximize" := isWord_of_toList_eq (c := 'M') rfl (by decide) (by decide)
      exact hword.line

theorem spellsLines_subjectTo :
    SpellsLines "Subject To\n".toList [plain .ident "Subject", plain .ident "To", newline] := by
  have hsubject : IsWord "Subject" := isWord_of_toList_eq (c := 'S') rfl (by decide) (by decide)
  have hto : IsWord "To" := isWord_of_toList_eq (c := 'T') rfl (by decide) (by decide)
  exact (Spells.append_space hsubject hto).line

/-- The text of a document spells the document. -/
theorem Worded.exists_laid
    {document : Document} (h : document.Worded) (options : WriteOptions) :
    ∃ tokens, document.Laid tokens ∧ SpellsLines (document.bodyText options) tokens := by
  have hmentions := h.mentions
  simp only [Document.mentions, List.mem_append, List.mem_map, List.mem_flatMap, or_imp,
    forall_and, forall_exists_index, and_imp, forall_apply_eq_imp_iff₂] at hmentions
  obtain ⟨⟨⟨⟨hobjective, hrows⟩, hbounds⟩, hgenerals⟩, hbinaries⟩ := hmentions
  obtain ⟨objective, hobjectiveBroken, hobjectiveSpells⟩ :=
    options.exists_broken_linesFrom 2 (WrittenExpr.forall₂_texts hobjective)
  have hrow : ∀ row ∈ document.rows, ∃ tokens, row.Laid tokens ∧
      SpellsLines (row.text options) (tokens ++ [newline]) := by
    intro row hmem
    obtain ⟨label, hlabel, hword⟩ := h.labels row hmem
    refine Row.exists_laid hlabel hword ?_ options
    intro term hterm
    exact hrows _ row hmem term hterm rfl
  obtain ⟨rows, hrowsLaid, hrowsSpell⟩ := exists_lines hrow
  obtain ⟨bounds, hboundsLaid, hboundsSpell⟩ := exists_boundsText hbounds
  have hgeneralsWord : IsWord "Generals" :=
    isWord_of_toList_eq (c := 'G') rfl (by decide) (by decide)
  have hbinariesWord : IsWord "Binaries" :=
    isWord_of_toList_eq (c := 'B') rfl (by decide) (by decide)
  have hendWord : IsWord "End" := isWord_of_toList_eq (c := 'E') rfl (by decide) (by decide)
  obtain ⟨generals, hgeneralsLaid, hgeneralsSpell⟩ :=
    exists_namesSection options hgeneralsWord hgenerals
  obtain ⟨binaries, hbinariesLaid, hbinariesSpell⟩ :=
    exists_namesSection options hbinariesWord hbinaries
  refine ⟨_, .mk hobjectiveBroken hrowsLaid hboundsLaid hgeneralsLaid hbinariesLaid, ?_⟩
  have hall := (((((((spellsLines_senseKeyword document.objective.sense).append
    hobjectiveSpells).append spellsLines_subjectTo).append hrowsSpell).append
    hboundsSpell).append hgeneralsSpell).append hbinariesSpell).append hendWord.line
  rw [List.flatMap_def] at hall
  simpa [bodyText] using hall

end Document

end LinearProgram
