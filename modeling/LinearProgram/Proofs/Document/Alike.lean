import LinearProgram.Proofs.Document.Expressions
import LinearProgram.Proofs.Token.Lines

/-!
# Tokens that read alike

A document that names only variables with valid names is read without ever getting past
an invalid token or an identifier whose brackets stay open.  Two lists of tokens are
alike if they are the same up to the first such token, whatever comes after it, or up to
the end of the input.  Reading positions in such lists are at the same token until one of
them is barred.  The main statement is `Cursor.Alike.skipNewlines`.
-/

namespace LinearProgram

open Token

namespace Token

/-! ## Unclosed identifiers -/

theorem identExtent_space_le {cs : List Char} (h : '[' ∉ cs) :
    identExtent 0 (cs ++ [' ']) ≤ cs.length := by
  induction cs with
  | nil => decide
  | cons c cs ih =>
      have hopen : c ≠ '[' := fun heq => h (heq ▸ List.mem_cons_self)
      have hlater := ih fun hmem => h (List.mem_cons_of_mem c hmem)
      rw [List.cons_append, identExtent, if_neg hopen, List.length_cons]
      split <;> omega

variable {token : Token}

theorem Unclosed.bracket_mem (h : token.Unclosed) : '[' ∈ token.text.toList := by
  by_contra hnone
  have hle := identExtent_space_le hnone
  have hextent := h.2
  omega

theorem Unclosed.not_isValid (h : token.Unclosed) : ¬(Name.ofText token.text).IsValid := by
  intro hvalid
  have hchars : (Name.ofText token.text).chars = token.text.toList := Name.chars_ofChars _
  have hextent := hvalid.identExtent_chars (separates_space [])
  rw [hchars, h.2] at hextent
  omega

theorem bracket_mem_asciiLower {text : String} (h : '[' ∈ text.toList) :
    '[' ∈ (asciiLower text).toList := by
  rw [asciiLower, String.toList_ofList]
  exact List.mem_map.mpr ⟨'[', h, rfl⟩

theorem Unclosed.unreserved (h : token.Unclosed) : Unreserved token.text := by
  have hnone : ∀ word ∈ Name.reservedWords, '[' ∉ word.toList := by decide
  exact fun hmem => hnone _ hmem (bracket_mem_asciiLower h.bracket_mem)

theorem Unclosed.ofWords?_eq_none (h : token.Unclosed) (first : String) :
    SectionKeyword.ofWords? first (asciiLower token.text) = none := by
  have hbracket := bracket_mem_asciiLower h.bracket_mem
  generalize asciiLower token.text = second at hbracket
  unfold SectionKeyword.ofWords?
  split
  · exact absurd hbracket (by decide)
  · exact absurd hbracket (by decide)
  · rfl

/-! ## Lists of tokens -/

/-- Tokens that begin with one that no reader of a model gets past. -/
def Barred : List Token → Prop
  | [] => False
  | token :: tokens =>
    token.kind = .invalid ∨ token.Unclosed ∧ tokens.head?.map Token.kind ≠ some .colon

/-- Tokens that a reader cannot tell from others before it comes to the end or is barred. -/
inductive Alike : List Token → List Token → Prop
  | ended {tokens' : List Token} (h : ∀ token ∈ tokens', token = newline) : Alike [] tokens'
  | stray {token : Token} (hkind : token.kind = .invalid) (tokens : List Token)
      {tokens' : List Token} (hbreak : ∀ next ∈ tokens'.head?, next = newline) :
      Alike (token :: tokens) tokens'
  | unclosed {token token' : Token} (h : token.Unclosed) (h' : token'.Unclosed)
      {tokens tokens' : List Token} (hcolon : tokens.head?.map Token.kind ≠ some .colon)
      (hcolon' : tokens'.head?.map Token.kind ≠ some .colon) :
      Alike (token :: tokens) (token' :: tokens')
  | line {tokens : List Token} (h : Barred tokens) (tokens' : List Token) :
      Alike (newline :: tokens) (newline :: tokens')
  | cons {token : Token} (hspan : token.span = ⟨0, 0⟩) {tokens tokens' : List Token}
      (h : Alike tokens tokens') : Alike (token :: tokens) (token :: tokens')

variable {tokens tokens' : List Token}

theorem barred_of_invalid (h : token.kind = .invalid) (tokens : List Token) :
    Barred (token :: tokens) :=
  .inl h

theorem Barred.kind_eq (h : Barred (token :: tokens)) :
    token.kind = .invalid ∨ token.kind = .ident :=
  h.imp id fun hopen => hopen.1.1

theorem Barred.kind_ne (h : Barred (token :: tokens)) : token.kind ≠ .newline := by
  rcases h.kind_eq with hkind | hkind <;> simp [hkind]

/-- A kind of token at which no reader takes anything. -/
def Blind (kind : TokenKind) : Prop :=
  kind = .endOfInput ∨ kind = .newline ∨ kind = .invalid

/-- Alike tokens begin with the same kind of token, or with kinds that are not taken. -/
theorem Alike.kind_eq_or (h : Alike tokens tokens') (previous previous' : Option Token) :
    (Cursor.mk previous tokens).kind = (Cursor.mk previous' tokens').kind ∨
      Blind (Cursor.mk previous tokens).kind ∧ Blind (Cursor.mk previous' tokens').kind := by
  cases h with
  | ended h =>
      refine .inr ⟨.inl rfl, ?_⟩
      cases tokens' with
      | nil => exact .inl rfl
      | cons token' tokens' =>
          rw [h token' List.mem_cons_self]
          exact .inr (.inl rfl)
  | stray hkind tokens hbreak =>
      refine .inr ⟨.inr (.inr hkind), ?_⟩
      cases tokens' with
      | nil => exact .inl rfl
      | cons token' tokens' =>
          rw [hbreak token' rfl]
          exact .inr (.inl rfl)
  | unclosed h h' _ _ => exact .inl (h.1.trans h'.1.symm)
  | line _ _ => exact .inl rfl
  | cons _ _ => exact .inl rfl

theorem Alike.kind_eq_iff (h : Alike tokens tokens') (previous previous' : Option Token)
    {kind : TokenKind} (hkind : ¬Blind kind) :
    (Cursor.mk previous tokens).kind = kind ↔ (Cursor.mk previous' tokens').kind = kind := by
  rcases h.kind_eq_or previous previous' with heq | ⟨hblind, hblind'⟩
  · rw [heq]
  · exact ⟨fun heq => absurd (heq ▸ hblind) hkind, fun heq => absurd (heq ▸ hblind') hkind⟩

end Token

/-! ## Reading positions -/

namespace Cursor

/-- Reading positions that a reader cannot tell apart before it comes to the end. -/
structure Alike (c c' : Cursor) : Prop where
  rest : Token.Alike c.rest c'.rest
  previous : c.rest ≠ [] → c.previous = c'.previous
  stop : c.lastStop = 0
  stop' : c'.lastStop = 0

/-- Alike positions that are at the end, or at one token that bars no reader. -/
inductive Level : Cursor → Cursor → Prop
  | ended {previous previous' : Option Token} (hstop : (Cursor.mk previous []).lastStop = 0)
      (hstop' : (Cursor.mk previous' []).lastStop = 0) : Level ⟨previous, []⟩ ⟨previous', []⟩
  | next {previous : Option Token} {token : Token} {tokens tokens' : List Token}
      (hkind : token.kind ≠ .newline) (hspan : token.span = ⟨0, 0⟩)
      (hpasses : ¬Barred (token :: tokens))
      (hstop : (Cursor.mk previous (token :: tokens)).lastStop = 0)
      (h : Token.Alike tokens tokens') :
      Level ⟨previous, token :: tokens⟩ ⟨previous, token :: tokens'⟩

variable {c c' : Cursor} {token : Token} {tokens tokens' : List Token}

/-- The positions behind one token. -/
theorem alike_some (hspan : token.span = ⟨0, 0⟩) (h : Token.Alike tokens tokens') :
    Alike ⟨some token, tokens⟩ ⟨some token, tokens'⟩ := by
  have hstop : token.span.stop = 0 := by rw [hspan]
  exact ⟨h, fun _ => rfl, hstop, hstop⟩

theorem Level.alike (h : c.Level c') : c.Alike c' := by
  cases h with
  | ended hstop hstop' =>
      exact ⟨.ended fun token hmem => absurd hmem List.not_mem_nil, fun hne => absurd rfl hne,
        hstop, hstop'⟩
  | next hkind hspan hpasses hstop h => exact ⟨.cons hspan h, fun _ => rfl, hstop, hstop⟩

theorem skipNewlines_skipNewlines (c : Cursor) : c.skipNewlines.skipNewlines = c.skipNewlines :=
  skipNewlines_of_ne c.kind_skipNewlines_ne

theorem skipNewlines_cons (hkind : token.kind ≠ .newline) (previous : Option Token)
    (tokens : List Token) :
    (Cursor.mk previous (token :: tokens)).skipNewlines = ⟨previous, token :: tokens⟩ :=
  skipNewlinesFrom_cons_of_ne hkind previous tokens

theorem skipNewlines_line (hkind : token.kind = .newline) (previous : Option Token)
    (tokens : List Token) :
    (Cursor.mk previous (token :: tokens)).skipNewlines =
      (Cursor.mk (some token) tokens).skipNewlines :=
  skipNewlinesFrom_cons_of_eq hkind previous tokens

theorem skipNewlines_of_barred (h : Barred c.rest) : c.skipNewlines = c := by
  obtain ⟨previous, _ | ⟨token, tokens⟩⟩ := c
  · exact h.elim
  · exact skipNewlines_cons h.kind_ne previous tokens

theorem Level.skipNewlines (h : c.Level c') : c.skipNewlines = c := by
  cases h with
  | ended _ _ => rfl
  | next hkind _ _ _ _ => exact skipNewlines_cons hkind _ _

theorem Level.skipNewlines' (h : c.Level c') : c'.skipNewlines = c' := by
  cases h with
  | ended _ _ => rfl
  | next hkind _ _ _ _ => exact skipNewlines_cons hkind _ _

/-- Alike positions at a token that is no line break are barred or level. -/
theorem Alike.barred_or_level (h : c.Alike c') (hrest : c.rest = token :: tokens)
    (hkind : token.kind ≠ .newline) : Barred c.rest ∨ c.Level c' := by
  obtain ⟨previous, rest⟩ := c
  obtain ⟨previous', rest'⟩ := c'
  obtain ⟨halike, hprevious, hstop, -⟩ := h
  dsimp only at hrest halike hprevious
  subst hrest
  obtain rfl := hprevious (List.cons_ne_nil _ _)
  by_cases hbarred : Barred (token :: tokens)
  · exact .inl hbarred
  refine .inr ?_
  cases halike with
  | stray hinvalid _ _ => exact absurd (.inl hinvalid) hbarred
  | unclosed hopen _ hcolon _ => exact absurd (.inr ⟨hopen, hcolon⟩) hbarred
  | line _ _ => exact absurd rfl hkind
  | cons hspan halike => exact .next hkind hspan hbarred hstop halike

theorem exists_skipNewlinesFrom_newlines (h : ∀ token ∈ tokens, token = newline)
    {previous : Option Token} (hstop : (Cursor.mk previous []).lastStop = 0) :
    ∃ last, skipNewlinesFrom previous tokens = ⟨last, []⟩ ∧ (Cursor.mk last []).lastStop = 0 := by
  induction tokens generalizing previous with
  | nil => exact ⟨previous, rfl, hstop⟩
  | cons token tokens ih =>
      obtain ⟨rfl, hlater⟩ := List.forall_mem_cons.mp h
      exact ih hlater rfl

/-- Behind line breaks alike positions are level, or the first one is barred. -/
theorem Alike.skipNewlines (h : c.Alike c') :
    Barred c.skipNewlines.rest ∨ c.skipNewlines.Level c'.skipNewlines := by
  obtain ⟨previous, tokens⟩ := c
  obtain ⟨previous', tokens'⟩ := c'
  obtain ⟨halike, hprevious, hstop, hstop'⟩ := h
  change Barred (skipNewlinesFrom previous tokens).rest ∨
    (skipNewlinesFrom previous tokens).Level (skipNewlinesFrom previous' tokens')
  dsimp only at halike hprevious
  induction halike generalizing previous previous' with
  | ended hbreaks =>
      obtain ⟨last, hlast, hlastStop⟩ := exists_skipNewlinesFrom_newlines hbreaks hstop'
      rw [hlast]
      exact .inr (.ended hstop hlastStop)
  | stray hkind tokens _ =>
      have hbarred : Barred (_ :: tokens) := .inl hkind
      rw [skipNewlinesFrom_cons_of_ne hbarred.kind_ne]
      exact .inl hbarred
  | unclosed hopen hopen' hcolon _ =>
      have hbarred : Barred (_ :: _) := .inr ⟨hopen, hcolon⟩
      rw [skipNewlinesFrom_cons_of_ne hbarred.kind_ne]
      exact .inl hbarred
  | @line tokens hbarred tokens' =>
      have hskip : (Cursor.mk (some newline) tokens).skipNewlines = ⟨some newline, tokens⟩ :=
        skipNewlines_of_barred hbarred
      rw [skipNewlinesFrom_cons_of_eq rfl]
      exact .inl ((congrArg Cursor.rest hskip).symm ▸ hbarred)
  | @cons token hspan tokens tokens' h ih =>
      have hstopToken : token.span.stop = 0 := by rw [hspan]
      by_cases hkind : token.kind = .newline
      · rw [skipNewlinesFrom_cons_of_eq hkind, skipNewlinesFrom_cons_of_eq hkind]
        exact ih _ _ (fun _ => rfl) hstopToken hstopToken
      · rw [skipNewlinesFrom_cons_of_ne hkind, skipNewlinesFrom_cons_of_ne hkind]
        exact Alike.barred_or_level ⟨.cons hspan h, hprevious, hstop, hstop'⟩ rfl hkind

/-! ## Keywords -/

theorem keyword?_of_unreserved (h : Unreserved token.text) (previous : Option Token)
    (tokens : List Token) : (Cursor.mk previous (token :: tokens)).keyword? = none := by
  cases tokens with
  | nil => simp [keyword?, keywordOf?, oneWord?, SectionKeyword.ofWord?_eq_none h]
  | cons second tokens =>
      simp [keyword?, keywordOf?, oneWord?, twoWords?, SectionKeyword.ofWord?_eq_none h,
        SectionKeyword.ofWords?_eq_none h]

theorem keyword?_of_barred (h : Barred c.rest) : c.keyword? = none := by
  obtain ⟨previous, _ | ⟨token, tokens⟩⟩ := c
  · exact h.elim
  rcases h with hinvalid | ⟨hopen, -⟩
  · exact keyword?_eq_none_of_kind_ne (by simp [kind, hinvalid])
  · exact keyword?_of_unreserved hopen.unreserved previous tokens

/-- Tokens that leave it to the word before them whether it is a keyword. -/
def Ignored (first : Token) (tokens : List Token) : Prop :=
  ∀ second ∈ tokens.head?, second.kind ≠ .colon ∧ twoWords? first second = none

theorem ignored_of_kind {first second : Token} (hcolon : second.kind ≠ .colon)
    (hident : second.kind ≠ .ident) (tokens : List Token) : Ignored first (second :: tokens) := by
  intro second' hsecond
  obtain rfl := Option.some.inj hsecond
  exact ⟨hcolon, if_neg fun hkinds => hident hkinds.2⟩

theorem ignored_of_unclosed {first second : Token} (hopen : second.Unclosed)
    (tokens : List Token) : Ignored first (second :: tokens) := by
  intro second' hsecond
  obtain rfl := Option.some.inj hsecond
  refine ⟨by simp [hopen.1], ?_⟩
  rw [twoWords?, hopen.ofWords?_eq_none]
  exact ite_self _

theorem Ignored.keywordOf? {first : Token} (h : Ignored first tokens) :
    Cursor.keywordOf? (first :: tokens) =
      (oneWord? first).map fun word => (word, ⟨some first, tokens⟩) := by
  cases tokens with
  | nil => rfl
  | cons second tokens =>
      obtain ⟨hcolon, htwo⟩ := h second rfl
      rw [Cursor.keywordOf?, if_neg hcolon, htwo]

/-- Keywords that are the same at two positions, with alike positions behind them. -/
def SameKeyword (found found' : Option (SectionKeyword × Cursor)) : Prop :=
  found = none ∧ found' = none ∨
    ∃ word d d', found = some (word, d) ∧ found' = some (word, d') ∧ d.Alike d'

theorem Ignored.sameKeyword {first : Token} (h : Ignored first tokens)
    (h' : Ignored first tokens') (hspan : first.span = ⟨0, 0⟩)
    (halike : Token.Alike tokens tokens') :
    SameKeyword (Cursor.keywordOf? (first :: tokens)) (Cursor.keywordOf? (first :: tokens')) := by
  rw [h.keywordOf?, h'.keywordOf?]
  cases oneWord? first with
  | none => exact .inl ⟨rfl, rfl⟩
  | some word => exact .inr ⟨word, _, _, rfl, rfl, alike_some hspan halike⟩

theorem ignored_of_newlines (first : Token) (h : ∀ next ∈ tokens.head?, next = newline) :
    Ignored first tokens := by
  intro second hsecond
  rw [h second hsecond]
  exact ⟨TokenKind.noConfusion, if_neg fun hkinds => TokenKind.noConfusion hkinds.2⟩

theorem sameKeyword_of_alike {first : Token} (hspan : first.span = ⟨0, 0⟩)
    (h : Token.Alike tokens tokens') :
    SameKeyword (keywordOf? (first :: tokens)) (keywordOf? (first :: tokens')) := by
  have halike := h
  cases h with
  | ended hbreaks =>
      have hnone : Ignored first [] := fun next hnext => nomatch hnext
      have hignored : Ignored first tokens' :=
        ignored_of_newlines first fun next hnext => hbreaks next (List.mem_of_head? hnext)
      exact hnone.sameKeyword hignored hspan halike
  | stray hkind tokens hbreak =>
      exact (ignored_of_kind (by simp [hkind]) (by simp [hkind]) tokens).sameKeyword
        (ignored_of_newlines first hbreak) hspan halike
  | unclosed hopen hopen' _ _ =>
      exact (ignored_of_unclosed hopen _).sameKeyword (ignored_of_unclosed hopen' _) hspan halike
  | line _ _ =>
      exact (ignored_of_kind TokenKind.noConfusion TokenKind.noConfusion _).sameKeyword
        (ignored_of_kind TokenKind.noConfusion TokenKind.noConfusion _) hspan halike
  | @cons second hspanSecond tokens tokens' h =>
      by_cases hcolon : second.kind = .colon
      · rw [keywordOf?, keywordOf?, if_pos hcolon, if_pos hcolon]
        exact .inl ⟨rfl, rfl⟩
      cases htwo : twoWords? first second with
      | none =>
          have hignored (tokens : List Token) : Ignored first (second :: tokens) := by
            intro second' hsecond
            obtain rfl := Option.some.inj hsecond
            exact ⟨hcolon, htwo⟩
          exact (hignored tokens).sameKeyword (hignored tokens') hspan halike
      | some word =>
          rw [keywordOf?, keywordOf?, if_neg hcolon, if_neg hcolon, htwo]
          exact .inr ⟨word, _, _, rfl, rfl, alike_some hspanSecond h⟩

theorem Level.sameKeyword (h : c.Level c') : SameKeyword c.keyword? c'.keyword? := by
  cases h with
  | ended _ _ => exact .inl ⟨keyword?_eq_none_of_kind_ne TokenKind.noConfusion,
      keyword?_eq_none_of_kind_ne TokenKind.noConfusion⟩
  | @next previous first tokens tokens' _ hspan _ _ h =>
      have hsame := sameKeyword_of_alike hspan h
      have hstart : (Cursor.mk previous (first :: tokens')).atLineStart =
          (Cursor.mk previous (first :: tokens)).atLineStart := rfl
      rw [keyword?, keyword?, hstart]
      split
      · exact hsame
      · exact .inl ⟨rfl, rfl⟩

theorem Level.isEmpty_rest (h : c.Level c') : c'.rest.isEmpty = c.rest.isEmpty := by
  cases h <;> rfl

theorem atBlockEnd_of_barred (h : Barred c.rest) : c.atBlockEnd = false := by
  rw [atBlockEnd, keyword?_of_barred h]
  obtain ⟨previous, _ | ⟨token, tokens⟩⟩ := c
  · exact h.elim
  · rfl

theorem Level.atBlockEnd (h : c.Level c') : c'.atBlockEnd = c.atBlockEnd := by
  rw [Cursor.atBlockEnd, Cursor.atBlockEnd, h.isEmpty_rest]
  rcases h.sameKeyword with ⟨hnone, hnone'⟩ | ⟨word, d, d', hsome, hsome', -⟩
  · rw [hnone, hnone']
  · rw [hsome, hsome']
    rfl

theorem Level.kind (h : c.Level c') : c'.kind = c.kind := by
  cases h <;> rfl

theorem Level.span (h : c.Level c') : c'.span = c.span := by
  cases h <;> rfl

end Cursor

end LinearProgram
