import LinearProgram.Document.Basic

/-!
# Reading positions

A cursor stands in the tokens of a document: it knows the token just read and those to
come.  It tells whether it is at the start of a line and which section keyword stands
there.  Reading a token makes the rest shorter, which is why every parser ends.
-/

namespace LinearProgram

/-- The parts that a section keyword can open, and the keyword that ends a document. -/
inductive SectionKeyword where
  | objective (sense : Sense)
  | subjectTo
  | bounds
  | generals
  | binaries
  | finish
deriving DecidableEq

namespace SectionKeyword

/-- The section that a single word opens, in small letters. -/
def ofWord? : String → Option SectionKeyword
  | "minimize" | "minimise" | "minimum" | "min" => some (objective .minimize)
  | "maximize" | "maximise" | "maximum" | "max" => some (objective .maximize)
  | "st" | "s.t." | "st." => some subjectTo
  | "bounds" | "bound" => some bounds
  | "generals" | "general" | "gen" => some generals
  | "binaries" | "binary" | "bin" => some binaries
  | "end" => some finish
  | _ => none

/-- The section that two words open together, in small letters. -/
def ofWords? : String → String → Option SectionKeyword
  | "subject", "to" | "such", "that" => some subjectTo
  | _, _ => none

end SectionKeyword

/-- A reading position: the token just read and the tokens to come. -/
structure Cursor where
  previous : Option Token
  rest : List Token
deriving DecidableEq

namespace Cursor

/-- The start of a text, without its comments; the end of the input has no token here. -/
def ofTokens (tokens : List Token) : Cursor :=
  ⟨none, tokens.filter fun token => token.kind ≠ .comment ∧ token.kind ≠ .endOfInput⟩

/-- The kind of the next token. -/
def kind (c : Cursor) : TokenKind :=
  match c.rest with
  | [] => .endOfInput
  | token :: _ => token.kind

/-- The span of the next token. -/
def span (c : Cursor) : Span :=
  match c.rest with
  | [] => ⟨0, 0⟩
  | token :: _ => token.span

/-- Where the token just read ends. -/
def lastStop (c : Cursor) : Nat :=
  match c.previous with
  | none => 0
  | some token => token.span.stop

/-- Whether the next token begins a line. -/
def atLineStart (c : Cursor) : Bool :=
  match c.previous with
  | none => true
  | some token => token.kind = .newline

/-- The position after the line breaks that come next. -/
def skipNewlinesFrom (previous : Option Token) : List Token → Cursor
  | [] => ⟨previous, []⟩
  | token :: tokens =>
    if token.kind = .newline then skipNewlinesFrom (some token) tokens
    else ⟨previous, token :: tokens⟩

def skipNewlines (c : Cursor) : Cursor :=
  skipNewlinesFrom c.previous c.rest

/-- The section that one token opens. -/
def oneWord? (first : Token) : Option SectionKeyword :=
  if first.kind = .ident then SectionKeyword.ofWord? (asciiLower first.text) else none

/-- The section that two tokens open together. -/
def twoWords? (first second : Token) : Option SectionKeyword :=
  if first.kind = .ident ∧ second.kind = .ident then
    SectionKeyword.ofWords? (asciiLower first.text) (asciiLower second.text)
  else
    none

/-- The section keyword at the head of some tokens, with the position after it. -/
def keywordOf? : List Token → Option (SectionKeyword × Cursor)
  | [] => none
  | [first] => (oneWord? first).map fun word => (word, ⟨some first, []⟩)
  | first :: second :: later =>
    if second.kind = .colon then none
    else match twoWords? first second with
      | some word => some (word, ⟨some second, later⟩)
      | none => (oneWord? first).map fun word => (word, ⟨some first, second :: later⟩)

/--
The section keyword at the start of this line and the position after it.

A word before a colon is a label, whatever the word.
-/
def keyword? (c : Cursor) : Option (SectionKeyword × Cursor) :=
  if c.atLineStart then keywordOf? c.rest else none

/-- Whether the input or the section ends here. -/
def atBlockEnd (c : Cursor) : Bool :=
  c.rest.isEmpty || c.keyword?.isSome

/-- Whether a relation sign comes next. -/
def atRelation (c : Cursor) : Bool :=
  c.kind = .le || c.kind = .ge || c.kind = .eq

/-- Whether a plus or a minus comes next. -/
def atSign (c : Cursor) : Bool :=
  c.kind = .plus || c.kind = .minus

theorem length_skipNewlinesFrom_le (previous : Option Token) (tokens : List Token) :
    (skipNewlinesFrom previous tokens).rest.length ≤ tokens.length := by
  induction tokens generalizing previous with
  | nil => simp [skipNewlinesFrom]
  | cons token tokens ih =>
      unfold skipNewlinesFrom
      split
      · exact Nat.le_succ_of_le (ih _)
      · simp

theorem length_skipNewlines_le (c : Cursor) : c.skipNewlines.rest.length ≤ c.rest.length :=
  length_skipNewlinesFrom_le _ _

theorem length_keywordOf?_lt {tokens : List Token} {word : SectionKeyword} {c : Cursor}
    (h : keywordOf? tokens = some (word, c)) :
    c.rest.length < tokens.length := by
  revert h
  unfold keywordOf?
  split
  · simp
  · simp only [Option.map_eq_some_iff, Prod.mk.injEq]
    rintro ⟨_, _, _, rfl⟩
    simp
  · split
    · simp
    · split
      · simp only [Option.some.injEq, Prod.mk.injEq]
        rintro ⟨_, rfl⟩
        simp only [List.length_cons]
        omega
      · simp only [Option.map_eq_some_iff, Prod.mk.injEq]
        rintro ⟨_, _, _, rfl⟩
        simp

theorem length_keyword?_lt {c c' : Cursor} {word : SectionKeyword}
    (h : c.keyword? = some (word, c')) :
    c'.rest.length < c.rest.length := by
  unfold keyword? at h
  split at h
  · exact length_keywordOf?_lt h
  · simp at h

end Cursor

end LinearProgram
