import LinearProgram.Proofs.Document.Code
import LinearProgram.Proofs.Document.Sections
import LinearProgram.Proofs.Model.Extent
import LinearProgram.Proofs.Model.Rendering
import LinearProgram.Proofs.Signature.Comment

/-!
# Parsing undoes writing

A valid model can be written whenever its text can be held, and the text is parsed as the
document that the model denotes, with the signature of the body if there is one in the
header.  The document depends on the model and on the choice of names, but
on nothing else in the options, so two layouts of a model are never read differently.
-/

namespace LinearProgram

open Token

namespace Model

/-- The tokens of a header. -/
def headerTokens (options : WriteOptions) (body : List Char) : List Token :=
  plain .comment (String.ofList banner) :: newline ::
    if options.signature then
      [plain .comment (String.ofList ('\\' :: (" Signature: ".toList ++
        (Signature.ofText (String.ofList body)).chars))), newline]
    else []

/-- The signature that a header carries. -/
def headerSignature (options : WriteOptions) (body : List Char) : Option String :=
  if options.signature then some (Signature.ofText (String.ofList body)).text else none

theorem spellsLines_header (options : WriteOptions) (body : List Char) :
    SpellsLines (header options body) (headerTokens options body) := by
  have hbanner : SpellsLines (banner ++ ['\n'])
      [plain .comment (String.ofList banner), newline] := by
    have hline : '\n' ∉ " LP format - for model browsing.".toList := by decide
    exact spells_comment hline
  rw [header, headerTokens]
  split
  · have hline : '\n' ∉ " Signature: ".toList ++ (Signature.ofText (String.ofList body)).chars := by
      rw [List.mem_append, not_or]
      exact ⟨by decide, Signature.newline_not_mem_chars _⟩
    have hall := hbanner.append (spells_comment hline)
    simpa using hall
  · exact hbanner

theorem signatureOfComment?_banner :
    signatureOfComment? (plain .comment (String.ofList banner)) = none := by
  decide

theorem findSome?_headerTokens (options : WriteOptions) (body : List Char) :
    (headerTokens options body).findSome? signatureOfComment? = headerSignature options body := by
  have hnewline : signatureOfComment? newline = none := rfl
  rw [headerTokens, headerSignature]
  cases options.signature with
  | true =>
      simp only [List.findSome?_cons, signatureOfComment?_banner, hnewline, if_true,
        signatureOfComment?_written]
  | false =>
      simp only [List.findSome?_cons, signatureOfComment?_banner, hnewline, Bool.false_eq_true,
        if_false, List.findSome?_nil]

/-- The position at the start of a text with a header. -/
theorem skipNewlines_headerTokens (options : WriteOptions) (body : List Char)
    {tokens : List Token} (hcode : AllCode tokens) (hkind : firstKind tokens ≠ .newline) :
    (Cursor.ofTokens
      (headerTokens options body ++ (tokens ++ [plain .endOfInput ""]))).skipNewlines =
      ⟨some newline, tokens⟩ := by
  have hfilter : (tokens ++ [plain .endOfInput ""]).filter
      (fun token => token.kind ≠ .comment ∧ token.kind ≠ .endOfInput) = tokens := by
    rw [List.filter_append, hcode.filter_eq]
    exact List.append_nil tokens
  have hskip := Cursor.skipNewlines_of_ne (c := ⟨some newline, tokens⟩) hkind
  rw [Cursor.ofTokens, List.filter_append, hfilter, headerTokens]
  cases options.signature with
  | true => exact hskip
  | false => exact hskip

theorem bare_documentWith (model : Model) (objective : Objective) (declaredNames : Bool)
    (signature : Option String) :
    (model.documentWith objective declaredNames signature).bare =
      model.documentWith objective declaredNames signature := by
  have hrows : (model.documentWith objective declaredNames signature).rows.map Row.bare =
      (model.documentWith objective declaredNames signature).rows := by
    simp only [documentWith, List.map_map]
    congr 1
    funext row
    simp only [Function.comp_apply, Row.bare, writtenRow, WrittenExpr.bare, bare_writtenTerms]
  have hbounds : (model.documentWith objective declaredNames signature).bounds.map
      BoundStatement.bare = (model.documentWith objective declaredNames signature).bounds := by
    simp only [documentWith, List.map_filterMap]
    congr 1
    funext entry
    dsimp only [writtenBound?]
    split <;> rfl
  rw [Document.bare, hrows, hbounds]
  simp only [documentWith, ObjectiveSection.bare, WrittenExpr.bare, bare_writtenTerms]

theorem exists_of_bareOutcome_eq_ok {outcome : Except ParseError Document} {document : Document}
    (h : Document.bareOutcome outcome = .ok document) :
    ∃ parsed, outcome = .ok parsed ∧ parsed.bare = document := by
  cases outcome with
  | error error => exact nomatch h
  | ok parsed => exact ⟨parsed, rfl, Except.ok.inj h⟩

/-- A text with a header and the tokens of a document is parsed as this document. -/
theorem exists_parse {document : Document} (h : document.Legible)
    (hbare : document.bare = document) {tokens : List Token} (hlaid : document.Laid tokens)
    (options : WriteOptions) {body : List Char} (hbody : SpellsLines body tokens) :
    ∃ parsed, Document.parse (String.ofList (header options body ++ body)) = .ok parsed ∧
      parsed.bare = { document with signature := headerSignature options body } := by
  apply exists_of_bareOutcome_eq_ok
  have hcode := hlaid.allCode
  have hkind : firstKind tokens ≠ .newline := by
    obtain ⟨-, -, -, -, -⟩ := hlaid
    rw [firstKind_cons]
    cases document.objective.sense <;> exact TokenKind.noConfusion
  have hlexemes : (Token.scan (String.ofList (header options body ++ body))).map Token.bare =
      headerTokens options body ++ (tokens ++ [plain .endOfInput ""]) := by
    have hall := (spellsLines_header options body).append hbody []
    rw [List.append_nil, lexemes_nil, List.append_assoc] at hall
    rw [scan, String.toList_ofList]
    exact hall
  have hsignature : (headerTokens options body ++
      (tokens ++ [plain .endOfInput ""])).findSome? signatureOfComment? =
      headerSignature options body := by
    have hend : signatureOfComment? (plain .endOfInput "") = none := rfl
    rw [List.findSome?_append, List.findSome?_append, hcode.findSome?_signature,
      findSome?_headerTokens, List.findSome?_singleton, hend]
    exact Option.or_none
  have hskip := skipNewlines_headerTokens options body hcode hkind
  have hread := Document.sectionsFrom_of_laid h hlaid hskip (headerSignature options body)
  rw [Document.parse, Document.bareOutcome_ofTokens_map_bare, hlexemes, Document.ofTokens_eq,
    hsignature, hread, hbare]
  exact congrArg (fun d : Document =>
    Except.ok { d with signature := headerSignature options body }) hbare

variable {model : Model}

/-- What a valid model has behind its header, and what the text is parsed as. -/
theorem WellFormed.exists_parse_body (h : model.WellFormed) (hissues : model.issues = [])
    (options : WriteOptions) {objective : Objective}
    (hobjective : model.objective = some objective) :
    ∃ body parsed, model.body options = .ok body ∧
      Document.parse (String.ofList (header options body ++ body)) = .ok parsed ∧
      parsed.bare = model.documentWith objective options.declaredNames
        (headerSignature options body) := by
  have hterms := (h.issues_eq_nil_iff.mp hissues).2
  obtain ⟨body, tokens, hbody, hlaid, hspells⟩ := h.exists_body hobjective hterms options none
  obtain ⟨parsed, hparse, hbare⟩ := exists_parse
    (h.legible_documentWith hobjective options.declaredNames none)
    (bare_documentWith model objective options.declaredNames none) hlaid options hspells
  exact ⟨body, parsed, hbody, hparse, hbare⟩

/-- What is written for a valid model, and what this is parsed as. -/
theorem WellFormed.exists_parse_write (h : model.WellFormed) (hissues : model.issues = [])
    {options : WriteOptions} (hfits : model.FitsStorage options) {objective : Objective}
    (hobjective : model.objective = some objective) :
    ∃ body parsed, model.body options = .ok body ∧
      model.write options = .ok (String.ofList (header options body ++ body)) ∧
      Document.parse (String.ofList (header options body ++ body)) = .ok parsed ∧
      parsed.bare = model.documentWith objective options.declaredNames
        (headerSignature options body) := by
  obtain ⟨body, parsed, hbody, hparse⟩ := h.exists_parse_body hissues options hobjective
  exact ⟨body, parsed, hbody, write_eq hissues hfits hbody, hparse⟩

theorem documentWith_signature
    (model : Model) (objective : Objective) (declaredNames : Bool) (signature : Option String) :
    { model.documentWith objective declaredNames signature with signature := none } =
      model.documentWith objective declaredNames none :=
  rfl

/--
Parsing undoes writing.  The text of a valid model is parsed as the document that the
model denotes, and any two layouts of it are parsed as the same document, but for the
signature in the header.
-/
theorem Reachable.parse_write
    (h : model.Reachable) (hissues : model.issues = [])
    {options : WriteOptions} (hfits : model.FitsStorage options) :
    ∃ objective body document, model.objective = some objective ∧
      model.body options = .ok body ∧
      model.write options = .ok (String.ofList (header options body ++ body)) ∧
      Document.parse (String.ofList (header options body ++ body)) = .ok document ∧
      document.bare = model.documentWith objective options.declaredNames
        (headerSignature options body) ∧
      ∀ other : WriteOptions, model.FitsStorage other →
        other.declaredNames = options.declaredNames →
          ∃ text again, model.write other = .ok text ∧ Document.parse text = .ok again ∧
            { again.bare with signature := none } = { document.bare with signature := none } := by
  have hwellFormed := h.wellFormed
  obtain ⟨objective, hobjective⟩ := Option.isSome_iff_exists.mp
    (hwellFormed.issues_eq_nil_iff.mp hissues).1
  obtain ⟨body, document, hbody, hwrite, hparse, hbare⟩ :=
    hwellFormed.exists_parse_write hissues hfits hobjective
  refine ⟨objective, body, document, hobjective, hbody, hwrite, hparse, hbare, ?_⟩
  intro other hother hnames
  obtain ⟨_, again, -, hwrite', hparse', hbare'⟩ :=
    hwellFormed.exists_parse_write hissues hother hobjective
  refine ⟨_, again, hwrite', hparse', ?_⟩
  rw [hbare, hbare', documentWith_signature, documentWith_signature, hnames]

section Diet

open LinearExpr

/-- Two, as a coefficient or a bound. -/
def two : Binary64 :=
  .finite false (.ofNat 2 (by decide))

/-- A model with variables of every kind, one of which is never used. -/
def diet : Model :=
  run [.declare (.flat "Rice") .nonNegative .continuous,
    .declare ⟨"Fries", ["small", "2"]⟩ ⟨.one, two⟩ .integer,
    .declare (.flat "Spare") .nonNegative .continuous,
    .declare (.flat "Open") .free .binary,
    .addConstraint (.flat "Iron") (((var ⟨1⟩).add (var ⟨0⟩)).add (ofConstant .one))
      (((Built.var _).add (.var _)).add (.ofConstant _)) .ge two,
    .setObjective .minimize ((var ⟨3⟩).scale two) ((Built.var _).scale _)]

/-- Options with an indentation that no text can hold. -/
def tooWide : WriteOptions :=
  { WriteOptions.default with continuationIndent := 9223372036854775808 }

theorem diet_issues : diet.issues = [] := by
  decide +kernel

/-- The diet is short, with the usual options. -/
theorem diet_fitsStorage : diet.FitsStorage .default :=
  fitsStorage_of_body (by decide) (by decide +kernel)

/-- Options with hardly any room in a line. -/
def cramped : WriteOptions :=
  { WriteOptions.default with maxLineLength := 8, continuationIndent := 1 }

theorem diet_fitsStorage_cramped : diet.FitsStorage cramped :=
  fitsStorage_of_body (by decide) (by decide +kernel)

theorem parse_write_diet :
    diet.Reachable ∧ diet.issues = [] ∧ diet.FitsStorage .default ∧ diet.FitsStorage cramped ∧
      ∃ text document text' document',
        diet.write .default = .ok text ∧ Document.parse text = .ok document ∧
        diet.write cramped = .ok text' ∧ Document.parse text' = .ok document' ∧
        { document'.bare with signature := none } = { document.bare with signature := none } := by
  refine ⟨reachable_run _, diet_issues, diet_fitsStorage, diet_fitsStorage_cramped, ?_⟩
  obtain ⟨_, _, document, -, -, hwrite, hparse, -, hother⟩ :=
    Reachable.parse_write (reachable_run _) diet_issues diet_fitsStorage
  obtain ⟨text', document', hwrite', hparse', hsame⟩ :=
    hother cramped diet_fitsStorage_cramped rfl
  exact ⟨_, document, text', document', hwrite, hparse, hwrite', hparse', hsame⟩

/-- With an indentation that no text can hold there is nothing to parse. -/
theorem not_forall_parse_write :
    ¬∀ (model : Model) (options : WriteOptions), model.Reachable → model.issues = [] →
      ∃ text document, model.write options = .ok text ∧ Document.parse text = .ok document := by
  intro hall
  obtain ⟨text, document, hwrite, -⟩ := hall diet tooWide (reachable_run _) diet_issues
  rw [write_eq_overflow diet_issues (by decide)] at hwrite
  cases hwrite

end Diet

end Model

end LinearProgram
