import LinearProgram.Proofs.Document.Runs
import LinearProgram.Proofs.Token.LongestNumerals

/-!
# Numbers in documents

The scanner takes as a number only what denotes one, so no document is refused because of a
number that cannot be read.  The check in the parser for such numbers is there all the
same: a parser passes it wherever all number tokens to come denote numbers, and these are
still to come after every success.  In the other direction, written numbers that are not
negative are number tokens.  The main statement is `Document.numbers_are_numerals`.
-/

namespace LinearProgram

open String (utf8Len)

/-- Tokens among which every number denotes a value. -/
def Numeric (tokens : List Token) : Prop :=
  ∀ token ∈ tokens, token.kind = .number →
    ∃ value, Binary64.ofNumeral? token.text.toList = some value

theorem Numeric.of_reaches {c d : Cursor} (h : Numeric c.rest) (hreaches : c.Reaches d) :
    Numeric d.rest :=
  fun token hmem => h token (hreaches.rest_suffix.subset hmem)

theorem Numeric.exists_numeral {token : Token} {tokens : List Token}
    (h : Numeric (token :: tokens)) (hkind : token.kind = .number) :
    ∃ value, Reader.numeral token = .ok value := by
  obtain ⟨value, hvalue⟩ := h token List.mem_cons_self hkind
  exact ⟨value, Grammar.numeral_eq_ok_iff.mpr hvalue⟩

namespace Reader

/-- No number is refused where all numbers to come denote values. -/
def Spares (p : Reader α) : Prop :=
  ∀ ⦃c⦄, Numeric c.rest → ∀ text, p c ≠ .error (.invalidNumber text)

theorem ok_ne_error (x : α) (error : ParseError) :
    (.ok x : Except ParseError α) ≠ .error error :=
  nofun

theorem unexpected_ne (expected : Expectation) (c : Cursor) (text : String) :
    unexpected expected c ≠ .invalidNumber text := by
  rw [unexpected]
  split <;> exact ParseError.noConfusion

theorem error_unexpected_ne (expected : Expectation) (c : Cursor) (text : String) :
    (.error (unexpected expected c) : Except ParseError α) ≠ .error (.invalidNumber text) :=
  fun heq => unexpected_ne expected c text (Except.error.inj heq)

/-! ## Parsers put together -/

section Together

variable {p q : Reader α} {g : α → Reader β}

theorem bind_ne_error {x : Except ε α} {f : α → Except ε β} {error : ε} (hx : x ≠ .error error)
    (hf : ∀ a, x = .ok a → f a ≠ .error error) : x >>= f ≠ .error error := by
  cases x with
  | error other => exact fun heq => hx (congrArg Except.error (Except.error.inj heq))
  | ok a => exact hf a rfl

theorem Spares.andThen (hp : Spares p)
    (hreaches : ∀ ⦃c x d⦄, p c = .ok (x, d) → c.Reaches d) (hg : ∀ x, Spares (g x)) :
    Spares (p.andThen g) := by
  intro c hc text
  refine bind_ne_error (hp hc text) fun found hok => ?_
  exact hg found.1 (hc.of_reaches (hreaches hok)) text

theorem spares_placed (f : Nat → α) : Spares (placed f) :=
  fun _ _ _ => ok_ne_error _ _

theorem Spares.branch (hp : Spares p) (hq : Spares q) (test : Cursor → Bool) :
    Spares (branch test p q) := by
  intro c hc text
  rw [Reader.branch]
  split
  · exact hp hc text
  · exact hq hc text

theorem spares_behindLabel {p : Option String → Reader α} (hp : ∀ label, Spares (p label)) :
    Spares (behindLabel p) :=
  fun c hc text => hp _ (hc.of_reaches (label?_reaches c)) text

theorem spares_manyUntil {stop : Cursor → Bool} {h : Shortens p} (hp : Spares p)
    (hreaches : ∀ ⦃c x d⦄, stop c = false → p c = .ok (x, d) → c.Reaches d) :
    Spares (manyUntil stop p h) := by
  intro c
  fun_induction manyUntil stop p h c with
  | case1 c c₁ hstop => exact fun _ _ => ok_ne_error _ _
  | case2 c c₁ hstop error herror =>
      intro hc text heq
      obtain rfl := Except.error.inj heq
      exact hp (hc.of_reaches (skipNewlines_reaches c)) text herror
  | case3 c c₁ hstop x next hfirst error hrest ih =>
      intro hc text heq
      obtain rfl := Except.error.inj heq
      have hnext := hreaches (Bool.eq_false_iff.mpr hstop) hfirst
      exact ih ((hc.of_reaches (skipNewlines_reaches c)).of_reaches hnext) text hrest
  | case4 c c₁ hstop x next hfirst later last hrest ih => exact fun _ _ => ok_ne_error _ _

end Together

/-! ## Parsers of lines -/

theorem spares_token (kind : TokenKind) : Spares (token kind) := by
  intro c _ text
  unfold token
  dsimp only
  split
  · exact error_unexpected_ne _ _ _
  · split
    · exact ok_ne_error _ _
    · exact error_unexpected_ne _ _ _

theorem spares_relation : Spares relation := by
  intro c _ text
  unfold relation
  dsimp only
  split
  · exact error_unexpected_ne _ _ _
  · split
    case h_4 => exact error_unexpected_ne _ _ _
    all_goals exact ok_ne_error _ _

theorem spares_unsigned (negative : Bool) : Spares (unsigned negative) := by
  rintro ⟨previous, _ | ⟨first, tokens⟩⟩ hc text
  · exact error_unexpected_ne _ _ _
  · unfold unsigned
    dsimp only
    split
    · next hkind =>
        obtain ⟨value, hvalue⟩ := hc.exists_numeral hkind
        rw [hvalue]
        exact ok_ne_error _ _
    · split
      · exact ok_ne_error _ _
      · exact error_unexpected_ne _ _ _

theorem spares_value : Spares value := by
  intro c hc text
  rw [value_eq]
  apply spares_unsigned
  exact (hc.of_reaches (skipNewlines_reaches c)).of_reaches (signs_reaches false c.skipNewlines)

theorem spares_operand (start : Span) (negative : Bool) : Spares (operand start negative) := by
  intro c hc text
  by_cases hnumber : c.kind = .number
  · obtain ⟨previous, _ | ⟨first, tokens⟩⟩ := c
    · cases hnumber
    obtain ⟨value, hvalue⟩ := hc.exists_numeral hnumber
    by_cases hnext : (Cursor.mk (some first) tokens).kind = .ident
    · obtain _ | ⟨second, later⟩ := tokens
      · cases hnext
      rw [operand_term _ _ _ _ hnumber hvalue hnext]
      exact ok_ne_error _ _
    · rw [operand_constant _ _ _ _ hnumber hvalue hnext]
      exact ok_ne_error _ _
  · by_cases hident : c.kind = .ident
    · obtain ⟨previous, _ | ⟨first, tokens⟩⟩ := c
      · cases hident
      rw [operand_variable _ _ _ _ hident]
      exact ok_ne_error _ _
    · rw [operand_unexpected _ _ hnumber hident]
      exact error_unexpected_ne _ _ _

theorem spares_summand (mustSign : Bool) : Spares (summand mustSign) := by
  intro c hc text
  unfold summand
  split
  · exact error_unexpected_ne _ _ _
  · split
    · exact spares_operand _ _ (hc.of_reaches (signs_reaches true c)) text
    · exact spares_operand _ _ hc text

theorem spares_expr : Spares expr := by
  intro c hc text
  have hskip := hc.of_reaches (skipNewlines_reaches c)
  unfold expr
  dsimp only
  split
  · exact ok_ne_error _ _
  · refine bind_ne_error (spares_summand false hskip text) fun first hfirst => ?_
    have hnext := hskip.of_reaches (summand_reaches hfirst)
    refine bind_ne_error ?_ fun later _ => ok_ne_error _ _
    exact spares_manyUntil (spares_summand true) (fun _ _ _ _ hok => summand_reaches hok) hnext
      text

theorem spares_row : Spares row := by
  intro c hc text
  rw [row_eq]
  refine spares_behindLabel (fun label => ?_) hc text
  refine spares_expr.andThen (fun _ _ _ => expr_reaches) fun sum => ?_
  refine spares_relation.andThen (fun _ _ _ => relation_reaches) fun sign => ?_
  exact spares_value.andThen (fun _ _ _ => value_reaches) fun bound => spares_placed _

theorem spares_bounding (start : Nat) (name : String)
    (sides : Option Binary64 × Option Binary64) : Spares (bounding start name sides) :=
  spares_placed _

theorem spares_valueFirstBound (start : Nat) : Spares (valueFirstBound start) := by
  rw [valueFirstBound_eq]
  refine spares_value.andThen (fun _ _ _ => value_reaches) fun first => ?_
  refine spares_relation.andThen (fun _ _ _ => relation_reaches) fun inner => ?_
  refine (spares_token _).andThen (fun _ _ _ => token_reaches) fun name => ?_
  refine Spares.branch ?_ (spares_bounding _ _ _) _
  refine spares_relation.andThen (fun _ _ _ => relation_reaches) fun outer => ?_
  exact spares_value.andThen (fun _ _ _ => value_reaches) fun second => spares_bounding _ _ _

theorem spares_nameFirstBound (start : Nat) : Spares (nameFirstBound start) := by
  rw [nameFirstBound_eq]
  refine (spares_token _).andThen (fun _ _ _ => token_reaches) fun name => ?_
  refine Spares.branch ?_ ?_ _
  · exact (spares_token _).andThen (fun _ _ _ => token_reaches) fun word => spares_bounding _ _ _
  · refine spares_relation.andThen (fun _ _ _ => relation_reaches) fun sign => ?_
    exact spares_value.andThen (fun _ _ _ => value_reaches) fun bound => spares_bounding _ _ _

theorem spares_boundStatement : Spares boundStatement := by
  intro c hc text
  unfold boundStatement
  split
  · exact spares_valueFirstBound _ hc text
  · split
    · exact spares_nameFirstBound _ hc text
    · exact error_unexpected_ne _ _ _

/-! ## Sections -/

theorem spares_rows : Spares (manyUntil Cursor.atBlockEnd row row_shortens) :=
  spares_manyUntil spares_row fun _ _ _ _ hok => row_reaches hok

theorem spares_bounds :
    Spares (manyUntil Cursor.atBlockEnd boundStatement boundStatement_shortens) :=
  spares_manyUntil spares_boundStatement fun _ _ _ _ hok => boundStatement_reaches hok

theorem spares_names : Spares names := by
  intro c hc text
  refine bind_ne_error ?_ fun _ _ => ok_ne_error _ _
  exact spares_manyUntil (spares_token _) (fun _ _ _ _ hok => token_reaches hok) hc text

theorem spares_part : Spares part := by
  intro c hc text
  rw [part]
  cases hkeyword : c.keyword? with
  | none => exact error_unexpected_ne _ _ _
  | some opened =>
      obtain ⟨keyword, d⟩ := opened
      have hbehind := hc.of_reaches (Grammar.keywordAt_of_keyword? hkeyword).reaches
      cases keyword with
      | objective sense => exact fun heq => ParseError.noConfusion (Except.error.inj heq)
      | finish => exact ok_ne_error _ _
      | subjectTo => exact bind_ne_error (spares_rows hbehind text) fun _ _ => ok_ne_error _ _
      | bounds => exact bind_ne_error (spares_bounds hbehind text) fun _ _ => ok_ne_error _ _
      | generals => exact bind_ne_error (spares_names hbehind text) fun _ _ => ok_ne_error _ _
      | binaries => exact bind_ne_error (spares_names hbehind text) fun _ _ => ok_ne_error _ _

theorem spares_objectiveSection : Spares objectiveSection := by
  intro c hc text
  have hskip := hc.of_reaches (skipNewlines_reaches c)
  rw [objectiveSection]
  cases hkeyword : c.skipNewlines.keyword? with
  | none =>
      dsimp only
      split
      · exact fun heq => ParseError.noConfusion (Except.error.inj heq)
      · exact error_unexpected_ne _ _ _
  | some opened =>
      obtain ⟨keyword, d⟩ := opened
      cases keyword with
      | objective sense =>
          have hbehind := hskip.of_reaches (Grammar.keywordAt_of_keyword? hkeyword).reaches
          refine bind_ne_error ?_ fun _ _ => ok_ne_error _ _
          exact spares_expr (hbehind.of_reaches (label?_reaches d)) text
      | _ => exact fun heq => ParseError.noConfusion (Except.error.inj heq)

end Reader

namespace Document

theorem numeric_ofTokens (source : String) :
    Numeric (Cursor.ofTokens (Token.scan source)).rest :=
  fun _ hmem hkind => Token.exists_value_of_mem_scan (List.mem_of_mem_filter hmem) hkind

/-- No text is refused because of a number that cannot be read. -/
theorem parse_ne_invalidNumber (source text : String) :
    parse source ≠ .error (.invalidNumber text) := by
  have hnumeric := numeric_ofTokens source
  rw [parse, ofTokens_eq, sectionsFrom]
  refine Reader.bind_ne_error (Reader.spares_objectiveSection hnumeric text) fun found hok => ?_
  refine Reader.bind_ne_error ?_ fun _ _ => Reader.ok_ne_error _ _
  exact Reader.spares_manyUntil Reader.spares_part (fun _ _ _ => Reader.part_reaches)
    (hnumeric.of_reaches (Reader.objectiveSection_reaches hok)) text

/--
Number tokens are always numbers.  Each covers a numeral that stands there in the text and
of which there is no longer one there, and this numeral denotes a value; so no text is
refused because of a number.  In the other direction the absolute value of a finite number
is written as a single number token, wherever a separator follows.
-/
theorem numbers_are_numerals :
    (∀ source, ∀ token ∈ Token.scan source, token.kind = .number →
      ∃ (before : List Char) (n : Numeral) (rest : List Char),
        source.toList = before ++ (n.chars ++ rest) ∧ n.IsLongest (n.chars ++ rest) ∧
          token = ⟨.number, ⟨utf8Len before, utf8Len (before ++ n.chars)⟩,
            String.ofList n.chars⟩ ∧
          ∃ value, Binary64.ofNumeral? token.text.toList = some value) ∧
    (∀ source text, parse source ≠ .error (.invalidNumber text)) ∧
    ∀ x : Binary64, x.isFinite = true → ∀ offset rest, Separates rest →
      Token.scanFrom offset (lpNumber x.abs ++ rest) =
        ⟨.number, ⟨offset, offset + (String.ofList (lpNumber x.abs)).utf8ByteSize⟩,
          String.ofList (lpNumber x.abs)⟩ ::
          Token.scanFrom (offset + (String.ofList (lpNumber x.abs)).utf8ByteSize) rest := by
  refine ⟨fun source token hmem hkind => ?_, parse_ne_invalidNumber, ?_⟩
  · obtain ⟨before, n, rest, hall, hlongest, htoken⟩ :=
      Token.exists_longest_of_mem_scan hmem hkind
    exact ⟨before, n, rest, hall, hlongest, htoken, Token.exists_value_of_mem_scan hmem hkind⟩
  · intro x hfinite offset rest hrest
    cases x with
    | nan => cases hfinite
    | infinity negative => cases hfinite
    | finite negative m =>
        obtain ⟨n, hchars, -⟩ := exists_numeral_lpNumber m
        rw [Binary64.abs, ← hchars]
        exact n.scanFrom_chars_append hrest offset

/-- An exponent without digits is no part of the number before it. -/
theorem numbers_are_numerals_bareExponent :
    (∃ n : Numeral, n.chars = ['2'] ∧ n.IsLongest "2e+ x".toList) ∧
      parse "Min\n 2e+ x\nEnd" ≠ .error (.invalidNumber "2e+") ∧
      Token.scanFrom 4 (lpNumber (-Binary64.one).abs ++ " x".toList) =
        ⟨.number, ⟨4, 5⟩, "1"⟩ :: Token.scanFrom 5 " x".toList := by
  obtain ⟨htokens, hparse, hwritten⟩ := numbers_are_numerals
  refine ⟨?_, hparse _ _, ?_⟩
  · have hmem : (⟨.number, ⟨0, 1⟩, "2"⟩ : Token) ∈ Token.scan "2e+ x" := by decide +kernel
    obtain ⟨before, n, rest, hall, hlongest, htoken, -⟩ := htokens _ _ hmem rfl
    obtain ⟨-, hspan, htext⟩ := Token.mk.inj htoken
    have hbefore : before = [] := String.utf8Len_eq_zero.mp (Span.mk.inj hspan).1.symm
    have hchars : n.chars = ['2'] := (String.ofList_injective htext).symm
    refine ⟨n, hchars, ?_⟩
    rw [hbefore, List.nil_append] at hall
    rw [hall]
    exact hlongest
  · have hone : lpNumber (-Binary64.one).abs = ['1'] := by decide +kernel
    have hscan := hwritten (-Binary64.one) rfl 4 " x".toList (separates_space ['x'])
    rw [hone] at hscan ⊢
    exact hscan

end Document

end LinearProgram
