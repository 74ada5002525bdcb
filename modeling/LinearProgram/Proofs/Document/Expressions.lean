import LinearProgram.Proofs.Document.Pieces
import LinearProgram.Proofs.Name.Spelling

/-!
# Reading expressions back

An expression is read back from its pieces wherever lines break between them.  A term is
read from its own piece alone.  A constant is read from its piece unless a variable
follows, and no variable follows the last piece of an expression.
-/

namespace LinearProgram

open Token

namespace Cursor

theorem skipNewlines_of_ne {c : Cursor} (h : c.kind ≠ .newline) : c.skipNewlines = c := by
  obtain ⟨previous, _ | ⟨token, tokens⟩⟩ := c
  · rfl
  · exact skipNewlinesFrom_cons_of_ne h previous tokens

theorem skipNewlines_newline (previous : Option Token) (tokens : List Token) :
    (Cursor.mk previous (newline :: tokens)).skipNewlines =
      (Cursor.mk (some newline) tokens).skipNewlines :=
  rfl

theorem keyword?_eq_none_of_kind_ne {c : Cursor} (h : c.kind ≠ .ident) : c.keyword? = none := by
  obtain ⟨previous, _ | ⟨first, _ | ⟨second, tokens⟩⟩⟩ := c
  · simp [keyword?, keywordOf?]
  · have hfirst : first.kind ≠ .ident := h
    simp [keyword?, keywordOf?, oneWord?, hfirst]
  · have hfirst : first.kind ≠ .ident := h
    simp [keyword?, keywordOf?, oneWord?, twoWords?, hfirst]

theorem keyword?_eq_none_of_unreserved {name : String} (h : Unreserved name)
    (previous : Option Token) (tokens : List Token) :
    (Cursor.mk previous (plain .ident name :: tokens)).keyword? = none := by
  cases tokens with
  | nil => simp [keyword?, keywordOf?, oneWord?, SectionKeyword.ofWord?_eq_none h]
  | cons second tokens =>
      simp [keyword?, keywordOf?, oneWord?, twoWords?, SectionKeyword.ofWord?_eq_none h,
        SectionKeyword.ofWords?_eq_none h]

/-- A word before a colon is not a keyword, whatever the word. -/
theorem keyword?_eq_none_of_colon (previous : Option Token) (first : Token)
    (tokens : List Token) : (Cursor.mk previous (first :: colon :: tokens)).keyword? = none := by
  simp [keyword?, keywordOf?, colon]

theorem atBlockEnd_eq_false {previous : Option Token} {token : Token} {tokens : List Token}
    (h : (Cursor.mk previous (token :: tokens)).keyword? = none) :
    (Cursor.mk previous (token :: tokens)).atBlockEnd = false := by
  rw [atBlockEnd, h]
  rfl

end Cursor

/-- The kind of the first of some tokens. -/
def firstKind (tokens : List Token) : TokenKind :=
  (Cursor.mk none tokens).kind

@[simp] theorem kind_mk (previous : Option Token) (tokens : List Token) :
    (Cursor.mk previous tokens).kind = firstKind tokens :=
  rfl

@[simp] theorem firstKind_cons (token : Token) (tokens : List Token) :
    firstKind (token :: tokens) = token.kind :=
  rfl

namespace Reader

theorem manyUntil_done {stop : Cursor → Bool} {item : Reader α} {h : Shortens item} {c : Cursor}
    (hstop : stop c.skipNewlines = true) :
    manyUntil stop item h c = .ok ([], c.skipNewlines) := by
  rw [manyUntil_eq, if_pos hstop]

theorem manyUntil_step {stop : Cursor → Bool} {item : Reader α} {h : Shortens item}
    {c next last : Cursor} {x : α} {xs : List α} (hstop : stop c.skipNewlines = false)
    (hitem : item c.skipNewlines = .ok (x, next))
    (hlater : manyUntil stop item h next = .ok (xs, last)) :
    manyUntil stop item h c = .ok (x :: xs, last) := by
  rw [manyUntil_eq, hstop, if_neg Bool.false_ne_true, hitem, ok_bind, hlater, ok_bind]

/-! ## Breaks -/

/-- A property of the first kind of token that every break and every piece has. -/
theorem firstKind_broken_append {p : TokenKind → Prop} {pieces : List (List Token)}
    {tokens rest : List Token} (h : Broken pieces tokens) (hnewline : p .newline)
    (hpieces : ∀ piece ∈ pieces, ∀ later, p (firstKind (piece ++ later)))
    (hrest : p (firstKind rest)) : p (firstKind (tokens ++ rest)) := by
  cases h with
  | nil => exact hrest
  | stay hlater =>
      rw [List.append_assoc]
      exact hpieces _ List.mem_cons_self _
  | wrap hlater => exact hnewline

/-- Behind the break that may stand before it, a piece begins. -/
theorem exists_skipNewlines_broken {piece : List Token} {pieces : List (List Token)}
    {tokens : List Token} (h : Broken (piece :: pieces) tokens)
    (hpiece : ∀ later, firstKind (piece ++ later) ≠ .newline) :
    ∃ later, Broken pieces later ∧ ∀ previous rest, ∃ last,
      (Cursor.mk previous (tokens ++ rest)).skipNewlines = ⟨last, piece ++ (later ++ rest)⟩ := by
  cases h with
  | @stay _ _ later hlater =>
      refine ⟨later, hlater, fun previous rest => ⟨previous, ?_⟩⟩
      rw [List.append_assoc]
      exact Cursor.skipNewlines_of_ne (hpiece _)
  | @wrap _ _ later hlater =>
      refine ⟨later, hlater, fun previous rest => ⟨some newline, ?_⟩⟩
      rw [List.cons_append, List.append_assoc, Cursor.skipNewlines_newline]
      exact Cursor.skipNewlines_of_ne (hpiece _)

/-! ## Summands -/

/-- Tokens at which an operand can begin. -/
structure OpensOperand (tokens : List Token) : Prop where
  plus : firstKind tokens ≠ .plus
  minus : firstKind tokens ≠ .minus
  newline : firstKind tokens ≠ .newline
  span : (Cursor.mk none tokens).span = ⟨0, 0⟩

theorem summand_signed (isFirst : Bool) (value : Binary64) (previous : Option Token)
    {tokens : List Token} (h : OpensOperand tokens) :
    ∃ last, summand (!isFirst) ⟨previous, signTokens isFirst value ++ tokens⟩ =
      operand ⟨0, 0⟩ value.isBelowZero ⟨last, tokens⟩ := by
  have hstop (negative : Bool) (last : Option Token) :
      signsFrom true negative last tokens = (negative, ⟨last, tokens⟩) := by
    cases tokens with
    | nil => rfl
    | cons token tokens =>
        exact signsFrom_stop h.plus h.minus (fun hnewline => absurd hnewline h.newline) _ _ _
  rw [signTokens]
  by_cases hbelow : value.isBelowZero = true
  · refine ⟨some minus, ?_⟩
    have hsigns : signs true ⟨previous, minus :: tokens⟩ = (true, ⟨some minus, tokens⟩) := by
      rw [signs, signsFrom_minus rfl, hstop]
      rfl
    rw [if_pos hbelow, hbelow, List.singleton_append, summand, hsigns]
    cases isFirst <;> rfl
  · rw [if_neg hbelow, Bool.eq_false_iff.mpr hbelow]
    cases isFirst with
    | true =>
        refine ⟨previous, ?_⟩
        have hsign : (Cursor.mk previous tokens).atSign = false := by
          rw [Cursor.atSign, kind_mk, decide_eq_false h.plus, decide_eq_false h.minus]
          rfl
        have hspan : (Cursor.mk previous tokens).span = ⟨0, 0⟩ := h.span
        rw [if_pos rfl, List.nil_append, summand, hsign, hspan]
        rfl
    | false =>
        refine ⟨some plus, ?_⟩
        have hsigns : signs true ⟨previous, plus :: tokens⟩ = (false, ⟨some plus, tokens⟩) := by
          rw [signs, signsFrom_plus rfl, hstop]
        rw [if_neg Bool.false_ne_true, List.singleton_append, summand, hsigns]
        rfl

theorem applySign_isBelowZero (x : Binary64) : applySign x.isBelowZero x.abs = x.dropZeroSign :=
  x.ite_neg_abs

theorem numeral_lpNumber (m : Magnitude) :
    numeral (number (lpNumber (.finite false m))) = .ok (.finite false m) := by
  obtain ⟨n, hchars, hvalue⟩ := exists_numeral_lpNumber m
  rw [← hchars, numeral, number, text_plain, String.toList_ofList, hvalue]

/-- Without its sign, a finite number is one token, which is read as this number. -/
theorem exists_ofNumber_abs
    {value : Binary64} (hfinite : value.isFinite = true) :
    ∃ cs, ofNumber value.abs = [number cs] ∧ numeral (number cs) = .ok value.abs := by
  cases value with
  | finite negative m => exact ⟨_, rfl, numeral_lpNumber m⟩
  | _ => exact Bool.noConfusion hfinite

theorem opensOperand_ident (name : String) (rest : List Token) :
    OpensOperand (plain .ident name :: rest) :=
  ⟨TokenKind.noConfusion, TokenKind.noConfusion, TokenKind.noConfusion, rfl⟩

theorem opensOperand_number (cs : List Char) (rest : List Token) :
    OpensOperand (number cs :: rest) :=
  ⟨TokenKind.noConfusion, TokenKind.noConfusion, TokenKind.noConfusion, rfl⟩

theorem summand_term {term : WrittenTerm} (h : term.Legible) (isFirst : Bool)
    (previous : Option Token) (rest : List Token) :
    summand (!isFirst) ⟨previous, term.tokens isFirst ++ rest⟩ =
      .ok (.term term.bare, ⟨some (plain .ident term.name), rest⟩) := by
  obtain ⟨⟨start, stop⟩, coefficient, name⟩ := term
  obtain ⟨hfinite, hnonzero, -⟩ := h
  have hvalue : applySign coefficient.isBelowZero coefficient.abs = coefficient :=
    (applySign_isBelowZero coefficient).trans (Binary64.dropZeroSign_of_not_isZero hnonzero)
  rw [WrittenTerm.tokens, List.append_assoc]
  dsimp only
  by_cases hone : coefficient.abs.numEq .one = true
  · obtain ⟨last, hsummand⟩ :=
      summand_signed isFirst coefficient previous (opensOperand_ident name rest)
    have habs : coefficient.abs = .one := by
      cases coefficient with
      | finite negative m => exact Binary64.eq_one_of_numEq_one hone
      | _ => exact Bool.noConfusion hfinite
    rw [if_pos hone, List.nil_append, List.singleton_append, hsummand,
      operand_variable _ _ _ _ rfl, ← habs, hvalue]
    rfl
  · obtain ⟨cs, htokens, hnumeral⟩ := exists_ofNumber_abs hfinite
    obtain ⟨last, hsummand⟩ := summand_signed isFirst coefficient previous
      (opensOperand_number cs (plain .ident name :: rest))
    rw [if_neg hone, htokens]
    refine hsummand.trans ?_
    rw [operand_term _ _ _ _ rfl hnumeral rfl, hvalue]
    rfl

/-- A constant is read where no variable follows it. -/
theorem summand_constant {value : Binary64} (hfinite : value.isFinite = true) (isFirst : Bool)
    (previous : Option Token) {rest : List Token} (hrest : firstKind rest ≠ .ident) :
    ∃ last, summand (!isFirst) ⟨previous, WrittenExpr.constantTokens isFirst value ++ rest⟩ =
      .ok (.constant value.dropZeroSign, ⟨last, rest⟩) := by
  obtain ⟨cs, htokens, hnumeral⟩ := exists_ofNumber_abs hfinite
  obtain ⟨last, hsummand⟩ := summand_signed isFirst value previous (opensOperand_number cs rest)
  refine ⟨some (number cs), ?_⟩
  rw [WrittenExpr.constantTokens, htokens, List.append_assoc]
  refine hsummand.trans ?_
  rw [operand_constant _ _ _ _ rfl hnumeral hrest, applySign_isBelowZero]

/-! ## Expressions -/

/-- Tokens at which a summand can begin. -/
structure OpensSummand (tokens : List Token) : Prop where
  newline : firstKind tokens ≠ .newline
  more : ∀ previous, atExprEnd ⟨previous, tokens⟩ = false

theorem atExprEnd_eq_false {previous : Option Token} {token : Token} {tokens : List Token}
    (hle : token.kind ≠ .le) (hge : token.kind ≠ .ge) (heq : token.kind ≠ .eq)
    (hkeyword : (Cursor.mk previous (token :: tokens)).keyword? = none) :
    atExprEnd ⟨previous, token :: tokens⟩ = false := by
  rw [atExprEnd, Cursor.atBlockEnd_eq_false hkeyword, Cursor.atRelation, kind_mk, firstKind_cons,
    decide_eq_false hle, decide_eq_false hge, decide_eq_false heq]
  rfl

theorem opensSummand_of_kind {token : Token} (hle : token.kind ≠ .le) (hge : token.kind ≠ .ge)
    (heq : token.kind ≠ .eq) (hident : token.kind ≠ .ident) (hnewline : token.kind ≠ .newline)
    (tokens : List Token) : OpensSummand (token :: tokens) :=
  ⟨hnewline, fun _ => atExprEnd_eq_false hle hge heq (Cursor.keyword?_eq_none_of_kind_ne hident)⟩

theorem opensSummand_ident {name : String} (h : Unreserved name) (tokens : List Token) :
    OpensSummand (plain .ident name :: tokens) :=
  ⟨TokenKind.noConfusion, fun previous => atExprEnd_eq_false TokenKind.noConfusion
    TokenKind.noConfusion TokenKind.noConfusion
    (Cursor.keyword?_eq_none_of_unreserved h previous tokens)⟩

theorem opensSummand_number (cs : List Char) (tokens : List Token) :
    OpensSummand (number cs :: tokens) :=
  opensSummand_of_kind TokenKind.noConfusion TokenKind.noConfusion TokenKind.noConfusion
    TokenKind.noConfusion TokenKind.noConfusion tokens

theorem OpensSummand.signed {tokens : List Token} (h : OpensSummand tokens) (isFirst : Bool)
    (value : Binary64) : OpensSummand (signTokens isFirst value ++ tokens) := by
  rw [signTokens]
  split
  · exact opensSummand_of_kind TokenKind.noConfusion TokenKind.noConfusion TokenKind.noConfusion
      TokenKind.noConfusion TokenKind.noConfusion tokens
  · split
    · exact h
    · exact opensSummand_of_kind TokenKind.noConfusion TokenKind.noConfusion
        TokenKind.noConfusion TokenKind.noConfusion TokenKind.noConfusion tokens

theorem opensSummand_term {term : WrittenTerm} (h : term.Legible) (isFirst : Bool)
    (rest : List Token) : OpensSummand (term.tokens isFirst ++ rest) := by
  rw [WrittenTerm.tokens, List.append_assoc]
  apply OpensSummand.signed
  split
  · exact opensSummand_ident h.name rest
  · obtain ⟨cs, htokens, -⟩ := exists_ofNumber_abs h.finite
    rw [htokens]
    exact opensSummand_number cs _

theorem opensSummand_constant {value : Binary64} (h : value.isFinite = true) (isFirst : Bool)
    (rest : List Token) : OpensSummand (WrittenExpr.constantTokens isFirst value ++ rest) := by
  rw [WrittenExpr.constantTokens, List.append_assoc]
  apply OpensSummand.signed
  obtain ⟨cs, htokens, -⟩ := exists_ofNumber_abs h
  rw [htokens]
  exact opensSummand_number cs _

/-- Behind the first piece of an expression, every piece begins with its sign. -/
theorem firstKind_signed (value : Binary64) (tokens : List Token) :
    firstKind (signTokens false value ++ tokens) ≠ .ident ∧
      firstKind (signTokens false value ++ tokens) ≠ .colon := by
  rw [signTokens]
  split <;> exact ⟨TokenKind.noConfusion, TokenKind.noConfusion⟩

/-- Tokens that end an expression. -/
structure EndsExpr (rest : List Token) : Prop where
  stops : ∀ previous, atExprEnd (Cursor.mk previous rest).skipNewlines = true
  ident : firstKind rest ≠ .ident
  colon : firstKind rest ≠ .colon

variable {rest : List Token}

theorem manyUntil_constant (hrest : EndsExpr rest) {value : Binary64}
    (hfinite : value.isFinite = true) {shows : Bool} {tokens : List Token}
    (hbroken : Broken (if shows then [WrittenExpr.constantTokens false value] else []) tokens)
    (previous : Option Token) :
    ∃ last, manyUntil atExprEnd (summand true) (summand_shortens true)
        ⟨previous, tokens ++ rest⟩ =
      .ok (if shows then [.constant value.dropZeroSign] else [],
        (Cursor.mk last rest).skipNewlines) := by
  cases shows with
  | false =>
      cases hbroken
      exact ⟨previous, manyUntil_done (hrest.stops previous)⟩
  | true =>
      obtain ⟨later, hlater, hskip⟩ := exists_skipNewlines_broken hbroken fun later =>
        (opensSummand_constant hfinite false later).newline
      cases hlater
      obtain ⟨last, hlast⟩ := hskip previous rest
      obtain ⟨behind, hitem⟩ := summand_constant hfinite false last hrest.ident
      refine ⟨behind, manyUntil_step ?_ ?_ (manyUntil_done (hrest.stops behind))⟩
      · rw [hlast]
        exact (opensSummand_constant hfinite false _).more last
      · rw [hlast]
        exact hitem

theorem manyUntil_terms (hrest : EndsExpr rest) {terms : List WrittenTerm}
    (hterms : ∀ term ∈ terms, term.Legible) {value : Binary64} (hfinite : value.isFinite = true)
    {shows : Bool} {tokens : List Token}
    (hbroken : Broken (WrittenExpr.termPieces false terms ++
      if shows then [WrittenExpr.constantTokens false value] else []) tokens)
    (previous : Option Token) :
    ∃ last, manyUntil atExprEnd (summand true) (summand_shortens true)
        ⟨previous, tokens ++ rest⟩ =
      .ok (terms.map (fun term => .term term.bare) ++
        (if shows then [.constant value.dropZeroSign] else []),
        (Cursor.mk last rest).skipNewlines) := by
  induction terms generalizing tokens previous with
  | nil => exact manyUntil_constant hrest hfinite hbroken previous
  | cons term terms ih =>
      have hterm : term.Legible := hterms term List.mem_cons_self
      obtain ⟨later, hlater, hskip⟩ := exists_skipNewlines_broken hbroken fun later =>
        (opensSummand_term hterm false later).newline
      obtain ⟨last, hlast⟩ := hskip previous rest
      obtain ⟨behind, hbehind⟩ := ih (fun term hmem => hterms term (List.mem_cons_of_mem _ hmem))
        hlater (some (plain .ident term.name))
      refine ⟨behind, manyUntil_step ?_ ?_ hbehind⟩
      · rw [hlast]
        exact (opensSummand_term hterm false _).more last
      · rw [hlast]
        exact summand_term hterm false last _

theorem exprOf_term_cons (term : WrittenTerm) (summands : List Summand) :
    exprOf (.term term :: summands) =
      ⟨term :: (exprOf summands).terms, (exprOf summands).constant⟩ :=
  rfl

theorem exprOf_terms_append (terms : List WrittenTerm) (summands : List Summand) :
    exprOf (terms.map Summand.term ++ summands) =
      ⟨terms ++ (exprOf summands).terms, (exprOf summands).constant⟩ := by
  induction terms with
  | nil => rfl
  | cons term terms ih =>
      rw [List.map_cons, List.cons_append, exprOf_term_cons, ih]
      rfl

/-- The summands of a legible expression add up to the expression. -/
theorem exprOf_summands {written : WrittenExpr} (h : written.Legible) :
    exprOf (written.terms.map (fun term => .term term.bare) ++
      if written.showsConstant then [.constant written.constant.dropZeroSign] else []) =
      written.bare := by
  have hmap : written.terms.map (fun term => Summand.term term.bare) =
      (written.terms.map WrittenTerm.bare).map Summand.term := by rw [List.map_map]; rfl
  rw [hmap, exprOf_terms_append, WrittenExpr.bare]
  by_cases hshows : written.showsConstant = true
  · have hsum : Binary64.zero + written.constant = written.constant :=
      (Binary64.zero_add h.finite).trans h.unsigned
    rw [if_pos hshows, h.unsigned]
    simp [exprOf, hsum]
  · have hzero : written.constant.isZero = true := by
      simp only [WrittenExpr.showsConstant, Bool.or_eq_true, Bool.not_eq_true', not_or,
        Bool.not_eq_false] at hshows
      exact hshows.1
    rw [if_neg hshows, ← h.unsigned, Binary64.dropZeroSign_of_isZero hzero]
    simp [exprOf]

theorem expr_step {c next last : Cursor} {first : Summand} {later : List Summand}
    (hmore : atExprEnd c.skipNewlines = false)
    (hfirst : summand false c.skipNewlines = .ok (first, next))
    (hlater : manyUntil atExprEnd (summand true) (summand_shortens true) next =
      .ok (later, last)) :
    expr c = .ok (exprOf (first :: later), last) := by
  rw [expr]
  dsimp only
  rw [hmore, if_neg Bool.false_ne_true, hfirst, ok_bind]
  dsimp only
  rw [hlater]
  rfl

/-- An expression is read from its pieces, wherever lines break between them. -/
theorem expr_pieces (hrest : EndsExpr rest) {written : WrittenExpr} (h : written.Legible)
    {tokens : List Token} (hbroken : Broken written.pieces tokens) (previous : Option Token) :
    ∃ last, expr ⟨previous, tokens ++ rest⟩ =
      .ok (written.bare, (Cursor.mk last rest).skipNewlines) := by
  rw [← exprOf_summands h]
  cases hterms : written.terms with
  | nil =>
      have hshows : written.showsConstant = true := by simp [WrittenExpr.showsConstant, hterms]
      rw [WrittenExpr.pieces_of_terms_eq_nil hterms] at hbroken
      obtain ⟨later, hlater, hskip⟩ := exists_skipNewlines_broken hbroken fun later =>
        (opensSummand_constant h.finite true later).newline
      cases hlater
      obtain ⟨last, hlast⟩ := hskip previous rest
      obtain ⟨behind, hitem⟩ := summand_constant h.finite true last hrest.ident
      rw [if_pos hshows]
      refine ⟨behind, expr_step ?_ ?_ (manyUntil_done (hrest.stops behind))⟩
      · rw [hlast]
        exact (opensSummand_constant h.finite true _).more last
      · rw [hlast]
        exact hitem
  | cons term terms =>
      have hlegible : ∀ t ∈ term :: terms, t.Legible := fun t ht => h.terms t (hterms ▸ ht)
      have hterm : term.Legible := hlegible term List.mem_cons_self
      rw [WrittenExpr.pieces_of_terms_eq_cons hterms] at hbroken
      obtain ⟨later, hlater, hskip⟩ := exists_skipNewlines_broken hbroken fun later =>
        (opensSummand_term hterm true later).newline
      obtain ⟨last, hlast⟩ := hskip previous rest
      obtain ⟨behind, hbehind⟩ := manyUntil_terms hrest
        (fun t ht => hlegible t (List.mem_cons_of_mem _ ht)) h.finite hlater
        (some (plain .ident term.name))
      refine ⟨behind, expr_step ?_ ?_ hbehind⟩
      · rw [hlast]
        exact (opensSummand_term hterm true _).more last
      · rw [hlast]
        exact summand_term hterm true last _

end Reader

end LinearProgram
