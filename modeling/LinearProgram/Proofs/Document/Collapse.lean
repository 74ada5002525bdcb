import LinearProgram.Document.Parser
import LinearProgram.Proofs.Token.Spelling

/-!
# Reading without places

What a document says does not depend on where its tokens stand, nor on how many line
breaks follow each other.  Collapsing tokens drops both.  Every parser is natural with
respect to collapsing: what it reads from collapsed tokens is what it reads from the
tokens themselves, places apart.  The main statement is `ofTokens_eq_of_collapse_eq`.
-/

namespace LinearProgram

open Token

namespace Token

/-- A token without its place; all line breaks are written alike. -/
def worded (token : Token) : Token :=
  if token.kind = .newline then newline else token.bare

/-- Tokens without their places, each run of line breaks being a single one. -/
def collapse : List Token → List Token
  | [] => []
  | token :: tokens =>
    if token.kind = .newline ∧ tokens.head?.map Token.kind = some .newline then collapse tokens
    else token.worded :: collapse tokens

@[simp] theorem kind_worded (token : Token) : token.worded.kind = token.kind := by
  rw [worded]
  split
  · next h => exact h.symm
  · rfl

theorem worded_of_ne {token : Token} (h : token.kind ≠ .newline) : token.worded = token.bare :=
  if_neg h

theorem worded_of_eq {token : Token} (h : token.kind = .newline) : token.worded = newline :=
  if_pos h

@[simp] theorem span_worded (token : Token) : token.worded.span = ⟨0, 0⟩ := by
  rw [worded]
  split <;> rfl

@[simp] theorem collapse_nil : collapse [] = [] :=
  rfl

theorem collapse_cons_of_ne {token : Token} (h : token.kind ≠ .newline) (tokens : List Token) :
    collapse (token :: tokens) = token.bare :: collapse tokens := by
  rw [collapse, if_neg fun hand => h hand.1, worded_of_ne h]

/-- Collapsing keeps the first token. -/
theorem exists_collapse_cons (token : Token) (tokens : List Token) :
    ∃ later, collapse (token :: tokens) = token.worded :: later := by
  induction tokens generalizing token with
  | nil => exact ⟨[], by simp [collapse]⟩
  | cons next tokens ih =>
      rw [collapse]
      split
      · next hand =>
          obtain ⟨later, hlater⟩ := ih next
          have hnext : next.kind = .newline := by simpa using hand.2
          exact ⟨later, by rw [hlater, worded_of_eq hnext, worded_of_eq hand.1]⟩
      · exact ⟨_, rfl⟩

theorem collapse_eq_of_map_bare_eq {tokens tokens' : List Token}
    (h : tokens.map bare = tokens'.map bare) : collapse tokens = collapse tokens' := by
  induction tokens generalizing tokens' with
  | nil =>
      rw [List.map_nil] at h
      rw [List.map_eq_nil_iff.mp h.symm]
  | cons token tokens ih =>
      cases tokens' with
      | nil => exact absurd h (List.cons_ne_nil _ _)
      | cons token' tokens' =>
          obtain ⟨hhead, htail⟩ := List.cons.inj h
          have hkind : token.kind = token'.kind := by simpa using congrArg Token.kind hhead
          have hheads : tokens.head?.map Token.kind = tokens'.head?.map Token.kind := by
            have := congrArg (fun ts => ts.head?.map Token.kind) htail
            simpa [Function.comp_def] using this
          have hworded : token.worded = token'.worded := by
            rw [worded, worded, hkind, hhead]
          rw [collapse, collapse, hkind, hheads, hworded, ih htail]

end Token

namespace Cursor

/-- A reading position in collapsed tokens. -/
def collapsed (c : Cursor) : Cursor :=
  ⟨c.previous.map worded, collapse c.rest⟩

theorem kind_collapsed (c : Cursor) : c.collapsed.kind = c.kind := by
  obtain ⟨previous, tokens⟩ := c
  cases tokens with
  | nil => rfl
  | cons token tokens =>
      obtain ⟨later, hlater⟩ := exists_collapse_cons token tokens
      simp [kind, collapsed, hlater]

theorem span_collapsed (c : Cursor) : c.collapsed.span = ⟨0, 0⟩ := by
  obtain ⟨previous, tokens⟩ := c
  cases tokens with
  | nil => rfl
  | cons token tokens =>
      obtain ⟨later, hlater⟩ := exists_collapse_cons token tokens
      simp [span, collapsed, hlater]

theorem lastStop_collapsed (c : Cursor) : c.collapsed.lastStop = 0 := by
  obtain ⟨previous, tokens⟩ := c
  cases previous <;> simp [lastStop, collapsed]

theorem atLineStart_collapsed (c : Cursor) : c.collapsed.atLineStart = c.atLineStart := by
  obtain ⟨previous, tokens⟩ := c
  cases previous <;> simp [atLineStart, collapsed]

theorem isEmpty_rest_collapsed (c : Cursor) : c.collapsed.rest.isEmpty = c.rest.isEmpty := by
  obtain ⟨previous, tokens⟩ := c
  cases tokens with
  | nil => rfl
  | cons token tokens =>
      obtain ⟨later, hlater⟩ := exists_collapse_cons token tokens
      simp [collapsed, hlater]

theorem collapsed_cons_of_ne {token : Token} (h : token.kind ≠ .newline)
    (previous : Option Token) (tokens : List Token) :
    (Cursor.mk previous (token :: tokens)).collapsed =
      ⟨previous.map worded, token.bare :: collapse tokens⟩ := by
  rw [collapsed, collapse_cons_of_ne h]

/-- The position behind a token, collapsed. -/
theorem collapsed_some_of_ne {token : Token} (h : token.kind ≠ .newline) (tokens : List Token) :
    (Cursor.mk (some token) tokens).collapsed = ⟨some token.bare, collapse tokens⟩ := by
  rw [collapsed, Option.map_some, worded_of_ne h]

theorem atRelation_collapsed (c : Cursor) : c.collapsed.atRelation = c.atRelation := by
  rw [atRelation, atRelation, kind_collapsed]

theorem atSign_collapsed (c : Cursor) : c.collapsed.atSign = c.atSign := by
  rw [atSign, atSign, kind_collapsed]

/-- Line breaks overwrite what was read before them. -/
theorem skipNewlinesFrom_cons_of_eq {token : Token} (h : token.kind = .newline)
    (previous : Option Token) (tokens : List Token) :
    skipNewlinesFrom previous (token :: tokens) = skipNewlinesFrom (some token) tokens := by
  rw [skipNewlinesFrom, if_pos h]

theorem skipNewlinesFrom_cons_of_ne {token : Token} (h : token.kind ≠ .newline)
    (previous : Option Token) (tokens : List Token) :
    skipNewlinesFrom previous (token :: tokens) = ⟨previous, token :: tokens⟩ := by
  rw [skipNewlinesFrom, if_neg h]

theorem skipNewlinesFrom_collapse (previous : Option Token) (tokens : List Token) :
    skipNewlinesFrom (previous.map worded) (collapse tokens) =
      (skipNewlinesFrom previous tokens).collapsed := by
  induction tokens generalizing previous with
  | nil => rfl
  | cons token tokens ih =>
      by_cases hkind : token.kind = .newline
      · rw [skipNewlinesFrom_cons_of_eq hkind, collapse]
        split
        · next hand =>
            -- The break that is dropped is overwritten by the next one.
            cases tokens with
            | nil => exact absurd hand.2 (by simp)
            | cons next tokens =>
                have hnext : next.kind = .newline := by simpa using hand.2
                rw [ih, skipNewlinesFrom_cons_of_eq hnext, skipNewlinesFrom_cons_of_eq hnext]
        · rw [skipNewlinesFrom_cons_of_eq (by simpa using hkind)]
          exact ih (some token)
      · rw [skipNewlinesFrom_cons_of_ne hkind, collapse_cons_of_ne hkind,
          skipNewlinesFrom_cons_of_ne (by simpa using hkind), collapsed_cons_of_ne hkind]

theorem skipNewlines_collapsed (c : Cursor) : c.collapsed.skipNewlines = c.skipNewlines.collapsed :=
  skipNewlinesFrom_collapse c.previous c.rest

theorem kind_skipNewlines_ne (c : Cursor) : c.skipNewlines.kind ≠ .newline := by
  obtain ⟨previous, tokens⟩ := c
  change (skipNewlinesFrom previous tokens).kind ≠ .newline
  induction tokens generalizing previous with
  | nil => exact TokenKind.noConfusion
  | cons token tokens ih =>
      by_cases hkind : token.kind = .newline
      · rw [skipNewlinesFrom_cons_of_eq hkind]
        exact ih (some token)
      · rw [skipNewlinesFrom_cons_of_ne hkind]
        exact hkind

theorem oneWord?_worded (token : Token) : oneWord? token.worded = oneWord? token := by
  rw [worded]
  split
  · next h => simp [oneWord?, h, newline]
  · rfl

theorem twoWords?_worded (first second : Token) :
    twoWords? first.worded second.worded = twoWords? first second := by
  unfold worded
  split
  · next h => simp [twoWords?, h, newline]
  · split
    · next h => simp [twoWords?, h, newline]
    · rfl

theorem keywordOf?_of_eq {token : Token} (h : token.kind = .newline) (tokens : List Token) :
    keywordOf? (token :: tokens) = none := by
  cases tokens with
  | nil => simp [keywordOf?, oneWord?, h]
  | cons next tokens => simp [keywordOf?, oneWord?, twoWords?, h]

theorem kind_eq_of_twoWords?_eq_some {first second : Token} {word : SectionKeyword}
    (h : twoWords? first second = some word) : second.kind = .ident := by
  rw [twoWords?] at h
  split at h
  · next hkinds => exact hkinds.2
  · exact absurd h.symm (Option.some_ne_none word)

theorem keywordOf?_collapse (tokens : List Token) :
    keywordOf? (collapse tokens) =
      (keywordOf? tokens).map fun found => (found.1, found.2.collapsed) := by
  cases tokens with
  | nil => rfl
  | cons first tokens =>
      by_cases hfirst : first.kind = .newline
      · obtain ⟨later, hlater⟩ := exists_collapse_cons first tokens
        rw [hlater, keywordOf?_of_eq (by simpa using hfirst), keywordOf?_of_eq hfirst]
        rfl
      rw [collapse_cons_of_ne hfirst, ← worded_of_ne hfirst]
      cases tokens with
      | nil =>
          rw [collapse_nil, keywordOf?, keywordOf?, oneWord?_worded, Option.map_map]
          rfl
      | cons second tokens =>
          obtain ⟨later, hlater⟩ := exists_collapse_cons second tokens
          rw [hlater]
          simp only [keywordOf?, kind_worded, twoWords?_worded, oneWord?_worded]
          by_cases hcolon : second.kind = .colon
          · rw [if_pos hcolon, if_pos hcolon]
            rfl
          rw [if_neg hcolon, if_neg hcolon]
          cases htwo : twoWords? first second with
          | none =>
              rw [← hlater, Option.map_map]
              rfl
          | some word =>
              have hsecond : second.kind ≠ .newline := by
                rw [kind_eq_of_twoWords?_eq_some htwo]
                exact TokenKind.noConfusion
              rw [collapse_cons_of_ne hsecond] at hlater
              simp [collapsed, (List.cons.inj hlater).2]

theorem keyword?_collapsed (c : Cursor) :
    c.collapsed.keyword? = c.keyword?.map fun found => (found.1, found.2.collapsed) := by
  rw [keyword?, keyword?, atLineStart_collapsed]
  split
  · exact keywordOf?_collapse c.rest
  · rfl

theorem atBlockEnd_collapsed (c : Cursor) : c.collapsed.atBlockEnd = c.atBlockEnd := by
  rw [atBlockEnd, atBlockEnd, isEmpty_rest_collapsed, keyword?_collapsed, Option.isSome_map]

end Cursor

end LinearProgram
