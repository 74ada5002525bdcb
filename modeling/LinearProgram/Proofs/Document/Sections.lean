import LinearProgram.Proofs.Document.Reading

/-!
# Reading documents back

The sections of a document are read one after the other, those that are left out being
empty.  The main statement is `Document.sectionsFrom_of_laid`: the tokens of a legible
document are read as this document, wherever its lines break.
-/

namespace LinearProgram

open Token

namespace Reader

/-! ## Sections -/

theorem keyword?_oneWord {word : Token} {keyword : SectionKeyword}
    (h : Cursor.oneWord? word = some keyword) (rest : List Token) :
    (Cursor.mk (some newline) (word :: newline :: rest)).keyword? =
      some (keyword, ⟨some word, newline :: rest⟩) := by
  have hnone : Cursor.twoWords? word newline = none := by simp [Cursor.twoWords?, newline]
  have hcolon : newline.kind ≠ .colon := TokenKind.noConfusion
  have hstart : (Cursor.mk (some newline) (word :: newline :: rest)).atLineStart = true := rfl
  rw [Cursor.keyword?, if_pos hstart]
  simp only [Cursor.keywordOf?]
  rw [if_neg hcolon, hnone, h]
  rfl

theorem keyword?_subjectTo (rest : List Token) :
    (Cursor.mk (some newline) (plain .ident "Subject" :: plain .ident "To" :: rest)).keyword? =
      some (.subjectTo, ⟨some (plain .ident "To"), rest⟩) := by
  have hwords : Cursor.twoWords? (plain .ident "Subject") (plain .ident "To") =
      some .subjectTo := by decide
  have hcolon : (plain .ident "To").kind ≠ .colon := TokenKind.noConfusion
  rw [Cursor.keyword?, if_pos (show Cursor.atLineStart _ = true from rfl)]
  simp only [Cursor.keywordOf?]
  rw [if_neg hcolon, hwords]

theorem part_rows {rest : List Token} (hrest : OpensSection rest) {rows : List Row}
    (hrows : ∀ written ∈ rows, written.Legible) {tokens : List Token}
    (hlines : Lines Row.Laid rows tokens) :
    part ⟨some newline, plain .ident "Subject" :: plain .ident "To" :: newline ::
        (tokens ++ rest)⟩ =
      .ok (.rows (rows.map Row.bare), ⟨some newline, rest⟩) := by
  rw [part, keyword?_subjectTo]
  dsimp only
  rw [manyUntil_lines hrest (fun written hmem _ hlaid => readAs_row (hrows written hmem) hlaid)
    hlines, ok_bind]
  rfl

theorem part_bounds {rest : List Token} (hrest : OpensSection rest)
    {statements : List BoundStatement} (hlegible : ∀ statement ∈ statements, statement.Legible)
    {tokens : List Token}
    (hlines : Lines (fun statement tokens => tokens = statement.tokens) statements tokens) :
    part ⟨some newline, plain .ident "Bounds" :: newline :: (tokens ++ rest)⟩ =
      .ok (.bounds (statements.map BoundStatement.bare), ⟨some newline, rest⟩) := by
  have hword : Cursor.oneWord? (plain .ident "Bounds") = some .bounds := by decide
  rw [part, keyword?_oneWord hword]
  dsimp only
  rw [manyUntil_lines hrest (fun statement hmem _ heq =>
    heq ▸ readAs_boundStatement (hlegible statement hmem)) hlines, ok_bind]
  rfl

theorem part_generals {rest : List Token} (hrest : OpensSection rest) {listed : List String}
    (hlisted : ∀ name ∈ listed, Unreserved name) {tokens : List Token}
    (hlaid : Document.LaidNames listed tokens) :
    part ⟨some newline, plain .ident "Generals" :: newline :: (tokens ++ rest)⟩ =
      .ok (.generals listed, ⟨some newline, rest⟩) := by
  have hword : Cursor.oneWord? (plain .ident "Generals") = some .generals := by decide
  rw [part, keyword?_oneWord hword]
  dsimp only
  rw [names_of_laid hrest hlisted hlaid, ok_bind]
  rfl

theorem part_binaries {rest : List Token} (hrest : OpensSection rest) {listed : List String}
    (hlisted : ∀ name ∈ listed, Unreserved name) {tokens : List Token}
    (hlaid : Document.LaidNames listed tokens) :
    part ⟨some newline, plain .ident "Binaries" :: newline :: (tokens ++ rest)⟩ =
      .ok (.binaries listed, ⟨some newline, rest⟩) := by
  have hword : Cursor.oneWord? (plain .ident "Binaries") = some .binaries := by decide
  rw [part, keyword?_oneWord hword]
  dsimp only
  rw [names_of_laid hrest hlisted hlaid, ok_bind]
  rfl

/-- A section that is left out is no section; one that is there begins with its word. -/
theorem opensSection_append {word : Token} {keyword : SectionKeyword}
    (hword : Cursor.oneWord? word = some keyword) {laid : List α → List Token → Prop}
    {xs : List α} {tokens rest : List Token}
    (hlaid : Document.LaidSection [word] laid xs tokens) (hrest : OpensSection rest) :
    OpensSection (tokens ++ rest) := by
  cases hlaid with
  | absent => exact hrest
  | present _ =>
      rw [OpensSection]
      simp only [List.cons_append, List.nil_append]
      rw [keyword?_oneWord hword]
      rfl

/-- The parts from a section that may be left out on. -/
theorem manyUntil_section {word : Token} {keyword : SectionKeyword}
    (hword : Cursor.oneWord? word = some keyword) (hfinish : keyword ≠ .finish)
    {laid : List α → List Token → Prop} {xs : List α} {tokens rest : List Token}
    {found : Part} (hlaid : Document.LaidSection [word] laid xs tokens)
    (hpart : ∀ tokens, laid xs tokens →
      part ⟨some newline, word :: newline :: (tokens ++ rest)⟩ =
        .ok (found, ⟨some newline, rest⟩))
    {parts : List Part} {last : Cursor}
    (hlater : manyUntil atDocumentEnd part part_shortens ⟨some newline, rest⟩ =
      .ok (parts, last)) :
    manyUntil atDocumentEnd part part_shortens ⟨some newline, tokens ++ rest⟩ =
      .ok ((if xs.isEmpty then [] else [found]) ++ parts, last) := by
  cases hlaid with
  | absent => exact hlater
  | @present x xs tokens hlaid =>
      have hkeyword := keyword?_oneWord hword (tokens ++ rest)
      have hskip : (Cursor.mk (some newline)
          ([word] ++ newline :: tokens ++ rest)).skipNewlines =
          ⟨some newline, word :: newline :: (tokens ++ rest)⟩ := by
        apply Cursor.skipNewlines_of_ne
        intro hnewline
        have hne : (Cursor.mk (some newline) (word :: newline :: (tokens ++ rest))).kind ≠
            .ident := by
          change word.kind ≠ _
          have hkind : word.kind = .newline := hnewline
          simp [hkind]
        rw [Cursor.keyword?_eq_none_of_kind_ne hne] at hkeyword
        exact absurd hkeyword.symm (Option.some_ne_none _)
      refine manyUntil_step ?_ ?_ hlater
      · rw [hskip, atDocumentEnd, hkeyword]
        simp [hfinish]
      · rw [hskip]
        exact hpart tokens hlaid

/-! ## The objective -/

theorem exists_signed_of_mem_termPieces {terms : List WrittenTerm} {piece : List Token}
    (h : piece ∈ WrittenExpr.termPieces false terms) :
    ∃ value behind, piece = signTokens false value ++ behind := by
  induction terms with
  | nil => exact absurd h List.not_mem_nil
  | cons term terms ih =>
      rcases List.mem_cons.mp h with rfl | hmem
      · exact ⟨_, _, rfl⟩
      · exact ih hmem

theorem firstKind_ne_colon_of_termPieces {terms : List WrittenTerm} {value : Binary64}
    {shows : Bool} {tokens rest : List Token}
    (hbroken : Broken (WrittenExpr.termPieces false terms ++
      if shows then [WrittenExpr.constantTokens false value] else []) tokens)
    (hrest : firstKind rest ≠ .colon) : firstKind (tokens ++ rest) ≠ .colon := by
  refine firstKind_broken_append (p := (· ≠ .colon)) hbroken TokenKind.noConfusion ?_ hrest
  intro piece hpiece later
  have hsigned : ∃ x behind, piece = signTokens false x ++ behind := by
    rcases List.mem_append.mp hpiece with hterm | hconstant
    · exact exists_signed_of_mem_termPieces hterm
    · cases shows with
      | false => exact absurd hconstant List.not_mem_nil
      | true => exact ⟨_, _, List.mem_singleton.mp hconstant⟩
  obtain ⟨x, behind, rfl⟩ := hsigned
  rw [List.append_assoc]
  exact (firstKind_signed x _).2

theorem label?_eq_none {c : Cursor}
    (h : firstKind c.skipNewlines.rest ≠ .ident ∨
      ∃ name later, c.skipNewlines.rest = name :: later ∧ firstKind later ≠ .colon) :
    label? c = (none, c.skipNewlines) := by
  rw [label?]
  split
  · next name colon tokens hrest =>
      rw [hrest] at h
      rcases h with hname | ⟨first, later, heq, hcolon⟩
      · rw [if_neg fun hboth => hname hboth.1]
      · obtain ⟨rfl, rfl⟩ := List.cons.inj heq
        rw [if_neg fun hboth => hcolon hboth.2]
  · rfl

theorem signTokens_first (value : Binary64) :
    signTokens true value = if value.isBelowZero then [minus] else [] :=
  rfl

/-- An expression does not begin with a name before a colon. -/
theorem label?_pieces {rest : List Token} (hrest : EndsExpr rest) {written : WrittenExpr}
    (h : written.Legible) {tokens : List Token} (hbroken : Broken written.pieces tokens)
    (previous : Option Token) :
    label? ⟨previous, tokens ++ rest⟩ =
      (none, (Cursor.mk previous (tokens ++ rest)).skipNewlines) := by
  apply label?_eq_none
  cases hterms : written.terms with
  | nil =>
      rw [WrittenExpr.pieces_of_terms_eq_nil hterms] at hbroken
      obtain ⟨later, -, hskip⟩ := exists_skipNewlines_broken hbroken fun later =>
        (opensSummand_constant h.finite true later).newline
      obtain ⟨last, hlast⟩ := hskip previous rest
      obtain ⟨cs, htokens, -⟩ := exists_ofNumber_abs h.finite
      rw [hlast]
      dsimp only
      rw [WrittenExpr.constantTokens, signTokens_first, htokens]
      left
      split
      · exact TokenKind.noConfusion
      · exact TokenKind.noConfusion
  | cons term terms =>
      have hterm : term.Legible := h.terms term (hterms ▸ List.mem_cons_self)
      rw [WrittenExpr.pieces_of_terms_eq_cons hterms] at hbroken
      obtain ⟨later, hlater, hskip⟩ := exists_skipNewlines_broken hbroken fun later =>
        (opensSummand_term hterm true later).newline
      obtain ⟨last, hlast⟩ := hskip previous rest
      have hcolon := firstKind_ne_colon_of_termPieces hlater hrest.colon
      obtain ⟨cs, htokens, -⟩ := exists_ofNumber_abs hterm.finite
      rw [hlast]
      dsimp only
      rw [WrittenTerm.tokens, signTokens_first, htokens]
      split
      · exact .inl TokenKind.noConfusion
      · split
        · exact .inr ⟨plain .ident term.name, later ++ rest, rfl, hcolon⟩
        · exact .inl TokenKind.noConfusion

theorem expr_skipNewlines (c : Cursor) : expr c.skipNewlines = expr c := by
  rw [expr, expr, Cursor.skipNewlines_of_ne c.kind_skipNewlines_ne]

theorem oneWord?_senseWord (sense : Sense) :
    Cursor.oneWord? (Document.senseWord sense) = some (.objective sense) := by
  cases sense <;> decide

theorem objectiveSection_of_laid {rest : List Token} (hrest : OpensSection rest) (sense : Sense)
    {written : WrittenExpr} (h : written.Legible) {tokens : List Token}
    (hbroken : Broken written.pieces tokens) {c : Cursor}
    (hc : c.skipNewlines = ⟨some newline,
      Document.senseWord sense :: newline :: (tokens ++ newline :: rest)⟩) :
    objectiveSection c = .ok (⟨⟨0, 0⟩, sense, none, written.bare⟩, ⟨some newline, rest⟩) := by
  have hends : EndsExpr (newline :: rest) := by
    refine ⟨fun previous => ?_, TokenKind.noConfusion, TokenKind.noConfusion⟩
    rw [hrest.skipNewlines, atExprEnd, hrest.atBlockEnd, Bool.or_true]
  obtain ⟨last, hexpr⟩ := expr_pieces hends h hbroken (some newline)
  have hkeyword := keyword?_oneWord (oneWord?_senseWord sense) (tokens ++ newline :: rest)
  have hlabel : label? ⟨some (Document.senseWord sense),
      newline :: (tokens ++ newline :: rest)⟩ =
      (none, (Cursor.mk (some newline) (tokens ++ newline :: rest)).skipNewlines) :=
    label?_pieces hends h hbroken (some newline)
  have hskipped : expr (Cursor.mk (some newline) (tokens ++ newline :: rest)).skipNewlines =
      .ok (written.bare, ⟨some newline, rest⟩) := by
    rw [expr_skipNewlines, hexpr, hrest.skipNewlines]
  rw [objectiveSection, hc]
  dsimp only
  rw [hkeyword]
  dsimp only
  rw [hlabel]
  dsimp only
  rw [hskipped]
  cases sense <;> rfl

end Reader

namespace Document

open Reader

theorem ofParts_sections (signature : Option String) (objective : ObjectiveSection)
    (rows : List Row) (bounds : List BoundStatement) (generals binaries : List String) :
    ofParts signature objective (.rows rows ::
      ((if bounds.isEmpty then [] else [.bounds bounds]) ++
        ((if generals.isEmpty then [] else [.generals generals]) ++
          ((if binaries.isEmpty then [] else [.binaries binaries]) ++ [])))) =
      ⟨signature, objective, rows, bounds, generals, binaries⟩ := by
  cases bounds <;> cases generals <;> cases binaries <;>
    simp [ofParts, rowsOfPart, boundsOfPart, generalsOfPart, binariesOfPart]

/-- The tokens of a legible document are read as this document. -/
theorem sectionsFrom_of_laid {document : Document} (h : document.Legible) {tokens : List Token}
    (hlaid : document.Laid tokens) {c : Cursor} (hc : c.skipNewlines = ⟨some newline, tokens⟩)
    (signature : Option String) :
    sectionsFrom signature c = .ok { document.bare with signature } := by
  obtain ⟨hobjective, hrows, hbounds, hgenerals, hbinaries⟩ := hlaid
  rename_i objective rows bounds generals binaries
  have hboundsWord : Cursor.oneWord? (plain .ident "Bounds") = some .bounds := by decide
  have hgeneralsWord : Cursor.oneWord? (plain .ident "Generals") = some .generals := by decide
  have hbinariesWord : Cursor.oneWord? (plain .ident "Binaries") = some .binaries := by decide
  have hendWord : Cursor.oneWord? (plain .ident "End") = some .finish := by decide
  have hend : OpensSection [plain .ident "End", newline] := by
    rw [OpensSection, keyword?_oneWord hendWord]
    rfl
  have hbehindGenerals := opensSection_append hbinariesWord hbinaries hend
  have hbehindBounds := opensSection_append hgeneralsWord hgenerals hbehindGenerals
  have hbehindRows := opensSection_append hboundsWord hbounds hbehindBounds
  have hsubject : OpensSection (plain .ident "Subject" :: plain .ident "To" :: newline ::
      (rows ++ (bounds ++ (generals ++ (binaries ++ [plain .ident "End", newline]))))) := by
    rw [OpensSection, keyword?_subjectTo]
    rfl
  have hfinish : manyUntil atDocumentEnd part part_shortens
      ⟨some newline, [plain .ident "End", newline]⟩ =
      .ok ([], ⟨some newline, [plain .ident "End", newline]⟩) := by
    apply manyUntil_done
    rw [Cursor.skipNewlines_of_ne TokenKind.noConfusion, atDocumentEnd, keyword?_oneWord hendWord]
    rfl
  have hfromBinaries := manyUntil_section hbinariesWord SectionKeyword.noConfusion hbinaries
    (fun _ => part_binaries hend h.binaries) hfinish
  have hfromGenerals := manyUntil_section hgeneralsWord SectionKeyword.noConfusion hgenerals
    (fun _ => part_generals hbehindGenerals h.generals) hfromBinaries
  have hfromBounds := manyUntil_section hboundsWord SectionKeyword.noConfusion hbounds
    (fun _ => part_bounds hbehindBounds h.bounds) hfromGenerals
  have hrowsPart := part_rows hbehindRows h.rows hrows
  have hskip := Cursor.skipNewlines_of_ne (c := ⟨some newline, plain .ident "Subject" ::
    plain .ident "To" :: newline :: (rows ++ (bounds ++ (generals ++ (binaries ++
      [plain .ident "End", newline]))))⟩) TokenKind.noConfusion
  have hparts := manyUntil_step (h := part_shortens) (by
    rw [hskip, atDocumentEnd, keyword?_subjectTo]
    rfl) (by rw [hskip]; exact hrowsPart) hfromBounds
  rw [sectionsFrom, objectiveSection_of_laid hsubject _ h.objective hobjective hc, ok_bind]
  dsimp only
  rw [hparts, ok_bind]
  refine congrArg Except.ok ?_
  have hsections := ofParts_sections signature
    ⟨⟨0, 0⟩, document.objective.sense, none, document.objective.expr.bare⟩
    (document.rows.map Row.bare) (document.bounds.map BoundStatement.bare) document.generals
    document.binaries
  rw [List.isEmpty_map] at hsections
  rw [hsections, bare, ObjectiveSection.bare, h.label]

end Document

end LinearProgram
