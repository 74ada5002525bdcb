import LinearProgram.Proofs.Token.Blanks

/-!
# Lines and the blanks around them

Scanning goes line by line: the tokens of a text are those of its lines, with a token for
each line break between them.  Trimming a line does less than it seems, for the scanner
skips only some of the blanks.  Up to invalid tokens and identifiers whose brackets stay
open, the tokens of a line are those of the trimmed line.  The main statements are
`code_append_newline` and `frays_code_trim`.
-/

namespace LinearProgram

open Token

/-! ## Lines -/

namespace Token

/-- The tokens of a text that a reader sees, without their places. -/
def code (cs : List Char) : List Token :=
  (lexemes cs).filter fun token => token.kind ≠ .comment ∧ token.kind ≠ .endOfInput

/-- The lexeme at a character as a token. -/
def lexeme (c : Char) (cs : List Char) : Token :=
  plain (lexemeOf c cs).1 (String.ofList (c :: cs.take (lexemeOf c cs).2))

theorem code_nil : code [] = [] := by
  rw [code, lexemes_nil]
  rfl

theorem code_spacing {c : Char} (hc : isSpacing c = true) (cs : List Char) :
    code (c :: cs) = code cs := by
  rw [code, lexemes_spacing hc, code]

theorem code_cons {c : Char} (hc : isSpacing c = false) (cs : List Char) :
    code (c :: cs) =
      [lexeme c cs].filter (fun token => token.kind ≠ .comment ∧ token.kind ≠ .endOfInput) ++
        code (cs.drop (lexemeOf c cs).2) := by
  rw [code, lexemes_cons hc, ← List.singleton_append, List.filter_append]
  rfl

theorem code_newline (cs : List Char) : code ('\n' :: cs) = newline :: code cs :=
  code_cons (by decide) cs

/-- The tokens of a line do not depend on the lines behind it. -/
theorem code_append_newline {line : List Char} (hline : '\n' ∉ line) (rest : List Char) :
    code (line ++ '\n' :: rest) = code line ++ newline :: code rest := by
  induction hn : line.length using Nat.strongRecOn generalizing line with
  | ind n ih =>
      cases line with
      | nil => rw [code_nil, List.nil_append, List.nil_append, code_newline]
      | cons c cs =>
          have hcs : '\n' ∉ cs := fun hmem => hline (List.mem_cons_of_mem c hmem)
          rw [List.length_cons] at hn
          by_cases hspacing : isSpacing c = true
          · rw [List.cons_append, code_spacing hspacing, code_spacing hspacing,
              ih cs.length (by omega) hcs rfl]
          rw [Bool.not_eq_true] at hspacing
          have hle := lexemeOf_le c cs
          have hlexeme : lexemeOf c (cs ++ '\n' :: rest) = lexemeOf c cs := by
            rcases lexemeOf_append_cases c cs with rfl | hsame | ⟨depth, hgoes⟩
            · rw [lexemeOf_comment_newline hcs, lexemeOf_comment hcs]
            · exact hsame _ (beginsBlank_newline rest)
            · have hall := (hgoes [] (by simp [BeginsBlank])).1
              rw [List.append_nil] at hall
              rw [(hgoes _ (beginsBlank_newline rest)).1, hall, identExtent_newline]
              rfl
          have hdrop : '\n' ∉ cs.drop (lexemeOf c cs).2 :=
            fun hmem => hcs (List.mem_of_mem_drop hmem)
          have hlater := ih (cs.drop (lexemeOf c cs).2).length
            (by rw [List.length_drop]; omega) hdrop rfl
          rw [List.cons_append, code_cons hspacing, code_cons hspacing, lexeme, lexeme, hlexeme,
            List.take_append_of_le_length hle, List.drop_append_of_le_length hle, hlater,
            List.append_assoc]

/-! ## Trimmed lines -/

/-- An identifier whose brackets are open at its end, so that a space would belong to it. -/
def Unclosed (token : Token) : Prop :=
  token.kind = .ident ∧
    identExtent 0 (token.text.toList ++ [' ']) = token.text.toList.length + 1

/-- The tokens of a line with blanks at its end, and those of the line without them. -/
inductive Frays : List Token → List Token → Prop
  | nil : Frays [] []
  | stray {token : Token} (hkind : token.kind = .invalid) (tokens : List Token) :
      Frays (token :: tokens) []
  | unclosed {token token' : Token} (h : token.Unclosed) (h' : token'.Unclosed) :
      Frays [token] [token']
  | cons {token : Token} (hkind : token.kind ≠ .newline) (hbare : token.bare = token)
      {tokens tokens' : List Token} (h : Frays tokens tokens') :
      Frays (token :: tokens) (token :: tokens')

/-- Blanks without a line break are skipped or are no tokens. -/
theorem lexemes_blanks_append {blanks : List Char} (hblank : ∀ c ∈ blanks, isBlank c = true)
    (hbreak : '\n' ∉ blanks) (cs : List Char) :
    lexemes (blanks ++ cs) = lexemes cs ∨
      ∃ token tokens, lexemes (blanks ++ cs) = token :: tokens ∧ token.kind = .invalid := by
  induction blanks with
  | nil => exact .inl rfl
  | cons c blanks ih =>
      obtain ⟨hc, hlater⟩ := List.forall_mem_cons.mp hblank
      have hne : c ≠ '\n' := fun heq => hbreak (heq ▸ List.mem_cons_self)
      by_cases hspacing : isSpacing c = true
      · rw [List.cons_append, lexemes_spacing hspacing]
        exact ih hlater fun hmem => hbreak (List.mem_cons_of_mem c hmem)
      · rw [Bool.not_eq_true] at hspacing
        rw [List.cons_append, lexemes_cons hspacing, lexemeOf_of_isBlank hc hne]
        exact .inr ⟨_, _, rfl, rfl⟩

theorem code_blanks_append {blanks : List Char} (hblank : ∀ c ∈ blanks, isBlank c = true)
    (hbreak : '\n' ∉ blanks) (cs : List Char) :
    code (blanks ++ cs) = code cs ∨
      ∃ token tokens, code (blanks ++ cs) = token :: tokens ∧ token.kind = .invalid := by
  rw [code, code]
  rcases lexemes_blanks_append hblank hbreak cs with hsame | ⟨token, tokens, hlexemes, hkind⟩
  · exact .inl (congrArg (List.filter _) hsame)
  · rw [hlexemes, List.filter_cons, if_pos (by simp [hkind])]
    exact .inr ⟨_, _, rfl, hkind⟩

theorem lexemes_comment {cs : List Char} (h : '\n' ∉ cs) :
    lexemes ('\\' :: cs) =
      [plain .comment (String.ofList ('\\' :: cs)), plain .endOfInput ""] := by
  rw [lexemes_cons (by decide), lexemeOf_comment h, List.take_length, List.drop_length,
    lexemes_nil]

theorem code_comment {cs : List Char} (h : '\n' ∉ cs) : code ('\\' :: cs) = [] := by
  rw [code_cons (by decide), lexeme, lexemeOf_comment h, List.drop_length, code_nil]
  rfl

theorem kind_lexeme_ne {c : Char} (hc : c ≠ '\n') (cs : List Char) :
    (lexeme c cs).kind ≠ .newline := by
  rw [lexeme, kind_plain]
  exact fun hkind => hc ((fits_lexemeOf c cs).2 hkind)

theorem unclosed_plain {cs : List Char} (h : identExtent 0 (cs ++ [' ']) = cs.length + 1) :
    (plain .ident (String.ofList cs)).Unclosed := by
  refine ⟨rfl, ?_⟩
  rw [text_plain, String.toList_ofList]
  exact h

/-- An identifier that goes on takes all blanks behind it. -/
theorem exists_code_unclosed {c : Char} (hspacing : isSpacing c = false) {cs : List Char}
    {depth : Nat} (hgoes : ∀ rest, BeginsBlank rest →
      lexemeOf c (cs ++ rest) = (.ident, cs.length + identExtent (depth + 1) rest) ∧
        identExtent 0 (c :: cs ++ rest) = cs.length + 1 + identExtent (depth + 1) rest)
    {blanks : List Char} (hblank : ∀ d ∈ blanks, isBlank d = true) (hbreak : '\n' ∉ blanks) :
    ∃ token : Token, code (c :: cs ++ blanks) = [token] ∧ token.Unclosed := by
  have hbegins : BeginsBlank blanks := fun d hd => hblank d (List.mem_of_head? hd)
  have hlexeme : lexemeOf c (cs ++ blanks) = (.ident, (cs ++ blanks).length) := by
    rw [(hgoes blanks hbegins).1, identExtent_succ_blanks depth hblank hbreak, List.length_append]
  refine ⟨plain .ident (String.ofList (c :: cs ++ blanks)), ?_, unclosed_plain ?_⟩
  · rw [List.cons_append, code_cons hspacing, lexeme, hlexeme, List.take_length, List.drop_length,
      code_nil]
    rfl
  · have hspaced : ∀ d ∈ blanks ++ [' '], isBlank d = true := by
      intro d hd
      rcases List.mem_append.mp hd with hd | hd
      · exact hblank d hd
      · rw [List.mem_singleton.mp hd]
        decide
    have hunbroken : '\n' ∉ blanks ++ [' '] := by simpa using hbreak
    rw [List.append_assoc, (hgoes _ fun d hd => hspaced d (List.mem_of_head? hd)).2,
      identExtent_succ_blanks depth hspaced hunbroken]
    simp only [List.length_append, List.length_cons, List.length_nil]
    omega

/-- Blanks behind a line change at most its last token. -/
theorem frays_code_append {line blanks : List Char} (hline : '\n' ∉ line)
    (hblank : ∀ c ∈ blanks, isBlank c = true) (hbreak : '\n' ∉ blanks) :
    Frays (code (line ++ blanks)) (code line) := by
  induction hn : line.length using Nat.strongRecOn generalizing line with
  | ind n ih =>
      cases line with
      | nil =>
          have hcode := code_blanks_append hblank hbreak []
          rw [List.append_nil] at hcode
          rw [List.nil_append, code_nil]
          rcases hcode with hnone | ⟨token, tokens, hcode, hkind⟩
          · rw [hnone, code_nil]
            exact .nil
          · rw [hcode]
            exact .stray hkind tokens
      | cons c cs =>
          have hcs : '\n' ∉ cs := fun hmem => hline (List.mem_cons_of_mem c hmem)
          have hc : c ≠ '\n' := fun heq => hline (heq ▸ List.mem_cons_self)
          rw [List.length_cons] at hn
          by_cases hspacing : isSpacing c = true
          · rw [List.cons_append, code_spacing hspacing, code_spacing hspacing]
            exact ih cs.length (by omega) hcs rfl
          rw [Bool.not_eq_true] at hspacing
          have hbegins : BeginsBlank blanks := fun d hd => hblank d (List.mem_of_head? hd)
          rcases lexemeOf_append_cases c cs with rfl | hsame | ⟨depth, hgoes⟩
          · -- The blanks belong to the comment.
            have hall : '\n' ∉ cs ++ blanks := by
              rw [List.mem_append, not_or]
              exact ⟨hcs, hbreak⟩
            rw [List.cons_append, code_comment hall, code_comment hcs]
            exact .nil
          · have hle := lexemeOf_le c cs
            have hdrop : '\n' ∉ cs.drop (lexemeOf c cs).2 :=
              fun hmem => hcs (List.mem_of_mem_drop hmem)
            have hlater := ih (cs.drop (lexemeOf c cs).2).length
              (by rw [List.length_drop]; omega) hdrop rfl
            rw [List.cons_append, code_cons hspacing, code_cons hspacing, lexeme,
              hsame blanks hbegins, List.take_append_of_le_length hle,
              List.drop_append_of_le_length hle, ← lexeme, List.filter_cons, List.filter_nil]
            split
            · exact .cons (kind_lexeme_ne hc cs) rfl hlater
            · exact hlater
          · -- The blanks belong to the identifier that is open at the end of the line.
            obtain ⟨token, hcode, hopen⟩ := exists_code_unclosed hspacing hgoes hblank hbreak
            have hnone : ∀ d ∈ ([] : List Char), isBlank d = true := fun d hd => nomatch hd
            obtain ⟨token', hcode', hopen'⟩ :=
              exists_code_unclosed hspacing hgoes hnone List.not_mem_nil
            rw [List.append_nil] at hcode'
            rw [hcode, hcode']
            exact .unclosed hopen hopen'

end Token

namespace Text

theorem exists_eq_append_trim (cs : List Char) :
    ∃ before behind, cs = before ++ (trim cs ++ behind) ∧
      (∀ c ∈ before, isBlank c = true) ∧ ∀ c ∈ behind, isBlank c = true := by
  refine ⟨cs.takeWhile isBlank, ((trimLeft cs).reverse.takeWhile isBlank).reverse, ?_, ?_, ?_⟩
  · rw [trim, trimRight, ← List.reverse_append, List.takeWhile_append_dropWhile,
      List.reverse_reverse, trimLeft, List.takeWhile_append_dropWhile]
  · exact fun c hc => List.mem_takeWhile_imp hc
  · exact fun c hc => List.mem_takeWhile_imp (List.mem_reverse.mp hc)

theorem mem_of_mem_trim {cs : List Char} {c : Char} (h : c ∈ trim cs) : c ∈ cs := by
  obtain ⟨before, behind, hsplit, -, -⟩ := exists_eq_append_trim cs
  rw [hsplit]
  exact List.mem_append_right _ (List.mem_append_left _ h)

end Text

/-- The tokens of a line are those of the trimmed line, or the line cannot be read. -/
theorem frays_code_trim {line : List Char} (hline : '\n' ∉ line) :
    Frays (code line) (code (Text.trim line)) ∨
      ∃ token tokens, code line = token :: tokens ∧ token.kind = .invalid := by
  obtain ⟨before, behind, hsplit, hbefore, hbehind⟩ := Text.exists_eq_append_trim line
  rw [hsplit, List.mem_append, List.mem_append, not_or, not_or] at hline
  obtain ⟨hnotBefore, hnotTrim, hnotBehind⟩ := hline
  have hfrays := frays_code_append hnotTrim hbehind hnotBehind
  have hcode := code_blanks_append hbefore hnotBefore (Text.trim line ++ behind)
  rw [← hsplit] at hcode
  rcases hcode with hsame | hstray
  · exact .inl (hsame ▸ hfrays)
  · exact .inr hstray

end LinearProgram
