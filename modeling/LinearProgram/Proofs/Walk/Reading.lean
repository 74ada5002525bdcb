import LinearProgram.Proofs.Document.Naturality
import LinearProgram.Proofs.Walk.Basic

/-!
# Reading as a walk

Documents read by a walk over the positions of their tokens.  What stands at a position is
looked up there, and the end of the input is a token like the others; to read on is to move
the position, also where nothing is left.  Every list is read by a loop that has no bound,
and so are line breaks and signs.  The walk for each form has the name of the parser for it.
-/

namespace LinearProgram

open Reader (Part Summand applySign exprOf isInfinityWord sidesOf overSides)

namespace Walk

variable (tokens : List Token)

/-! ## What stands at a position -/

def kindAt (i : Nat) : TokenKind :=
  (tokens[i]?.map Token.kind).getD .endOfInput

def spanAt (i : Nat) : Span :=
  (tokens[i]?.map Token.span).getD ⟨0, 0⟩

def startsLine (i : Nat) : Bool :=
  i = 0 || tokens[i - 1]?.any fun token => token.kind = .newline

/-- Where the token before a position ends; with no token there, where something else ends. -/
def lastStop (span : Span) (i : Nat) : Nat :=
  (tokens[i - 1]?.map fun token => token.span.stop).getD span.stop

/-- The section keyword that a token begins in front of another, and how many of them it takes. -/
def keywordOf? (first : Token) (next : Option Token) : Option (SectionKeyword × Nat) :=
  if next.any fun token => token.kind = .colon then none
  else
    match next.bind (Cursor.twoWords? first) with
    | some keyword => some (keyword, 2)
    | none => (Cursor.oneWord? first).map fun keyword => (keyword, 1)

/-- The section keyword at a position, and how many tokens it takes. -/
def keywordAt? (i : Nat) : Option (SectionKeyword × Nat) :=
  if startsLine tokens i then tokens[i]?.bind fun first => keywordOf? first tokens[i + 1]?
  else none

def endsBlock (i : Nat) : Bool :=
  kindAt tokens i = .endOfInput || (keywordAt? tokens i).isSome

def relationAt (i : Nat) : Bool :=
  kindAt tokens i = .le || kindAt tokens i = .ge || kindAt tokens i = .eq

def signAt (i : Nat) : Bool :=
  kindAt tokens i = .plus || kindAt tokens i = .minus

/-- The failure at a position where something else was expected. -/
def errorAt (expected : Expectation) (i : Nat) : ParseError :=
  match tokens[i]? with
  | some token =>
    if token.kind ≠ .endOfInput then .unexpectedToken expected token else .unexpectedEnd
  | none => .unexpectedEnd

/-! ## Words, relations and values -/

def unexpected (expected : Expectation) : Walk α := do
  throw (← look (errorAt tokens expected))

/-- Line breaks, as many as there are. -/
def skipNewlines : Walk Unit :=
  loop (fun _ => do
    if (← look (kindAt tokens)) = .newline then
      move 1
      return .inl ()
    else
      return .inr ()) ()

def token (kind : TokenKind) : Walk Token := do
  skipNewlines tokens
  match ← look fun i => tokens[i]? with
  | none => unexpected tokens (.token kind)
  | some token =>
    if token.kind = kind then
      move 1
      return token
    else
      unexpected tokens (.token kind)

def label? : Walk (Option String) := do
  skipNewlines tokens
  if (← look (kindAt tokens)) = .ident ∧ (← look fun i => kindAt tokens (i + 1)) = .colon then
    let name ← look fun i => tokens[i]?
    move 1
    move 1
    return name.map Token.text
  else
    return none

/-- Signs, as many as there are; line breaks behind each are skipped when asked for. -/
def signs (overNewlines : Bool) : Walk Bool :=
  loop (fun negative => do
    if ← look (signAt tokens) then
      let kind ← look (kindAt tokens)
      move 1
      if overNewlines then
        skipNewlines tokens
      return .inl (if kind = .minus then !negative else negative)
    else
      return .inr negative) false

def number : Walk Binary64 := do
  match Reader.numeral (← token tokens .number) with
  | .ok value => return value
  | .error error => throw error

def relation : Walk Relation := do
  skipNewlines tokens
  match ← look (kindAt tokens) with
  | .le => move 1; return .le
  | .ge => move 1; return .ge
  | .eq => move 1; return .eq
  | _ => unexpected tokens .relation

def value : Walk Binary64 := do
  skipNewlines tokens
  let negative ← signs tokens false
  match ← look fun i => tokens[i]? with
  | none => unexpected tokens .number
  | some token =>
    if token.kind = .number then
      return applySign negative (← number tokens)
    else if isInfinityWord token then
      move 1
      return applySign negative (.infinity false)
    else
      unexpected tokens .number

/-! ## Lists -/

/-- Items over line breaks, until a position that stops them; each may depend on the earlier. -/
def items (stops : Nat → Bool) (item : List α → Walk α) : Walk (List α) :=
  loop (fun read => do
    skipNewlines tokens
    if ← look stops then
      return .inr read
    else
      return .inl (read ++ [← item read])) []

/-- A coefficient with its variable, a number, or a variable; `start` is where it began. -/
def operand (start : Span) (negative : Bool) : Walk Summand := do
  match ← look (kindAt tokens) with
  | .number =>
    let value ← number tokens
    if (← look (kindAt tokens)) = .ident then
      let name ← token tokens .ident
      return .term ⟨start.merge name.span, applySign negative value, name.text⟩
    else
      return .constant (applySign negative value)
  | .ident =>
    let name ← token tokens .ident
    return .term ⟨start.merge name.span, applySign negative .one, name.text⟩
  | _ => unexpected tokens .operand

/-- A summand, which must have a sign if it is not the first. -/
def summand (earlier : List Summand) : Walk Summand := do
  let start ← look (spanAt tokens)
  let signed ← look (signAt tokens)
  let negative ← signs tokens true
  if !earlier.isEmpty && !signed then
    unexpected tokens .sign
  else
    operand tokens start negative

def expr : Walk WrittenExpr := do
  let summands ← items tokens (fun i => relationAt tokens i || endsBlock tokens i) (summand tokens)
  return exprOf summands

/-- From where something began to behind the token just read. -/
def place (start : Span) : Walk Span :=
  look fun i => ⟨start.start, lastStop tokens start i⟩

def row : Walk Row := do
  let start ← look (spanAt tokens)
  let label ← label? tokens
  let expr ← expr tokens
  let relation ← relation tokens
  let rhs ← value tokens
  return ⟨← place tokens start, label, expr, relation, rhs⟩

def valueFirstBound (start : Span) : Walk BoundStatement := do
  let first ← value tokens
  let inner ← relation tokens
  let name ← token tokens .ident
  let sides := sidesOf inner.flip first
  if ← look (relationAt tokens) then
    let outer ← relation tokens
    let second ← value tokens
    let (lower, upper) := overSides (sidesOf outer second) sides
    return ⟨← place tokens start, name.text, lower, upper⟩
  else
    return ⟨← place tokens start, name.text, sides.1, sides.2⟩

def nameFirstBound (start : Span) : Walk BoundStatement := do
  let name ← token tokens .ident
  if ← look fun i => tokens[i]?.any fun word =>
      word.kind = .ident && asciiLower word.text = "free" then
    move 1
    return ⟨← place tokens start, name.text,
      some (.infinity true), some (.infinity false)⟩
  else
    let relation ← relation tokens
    let value ← value tokens
    let (lower, upper) := sidesOf relation value
    return ⟨← place tokens start, name.text, lower, upper⟩

def boundStatement : Walk BoundStatement := do
  let start ← look (spanAt tokens)
  match ← look fun i => tokens[i]? with
  | none => unexpected tokens .boundStatement
  | some first =>
    if first.kind = .plus || first.kind = .minus || first.kind = .number then
      valueFirstBound tokens start
    else if first.kind = .ident then
      if isInfinityWord first && (← look fun i => relationAt tokens (i + 1)) then
        valueFirstBound tokens start
      else
        nameFirstBound tokens start
    else
      unexpected tokens .boundStatement

/-! ## Sections -/

def rows : Walk (List Row) :=
  items tokens (endsBlock tokens) fun _ => row tokens

def bounds : Walk (List BoundStatement) :=
  items tokens (endsBlock tokens) fun _ => boundStatement tokens

def names : Walk (List String) := do
  let read ← items tokens (endsBlock tokens) fun _ => token tokens .ident
  return read.map Token.text

def objectiveSection : Walk ObjectiveSection := do
  skipNewlines tokens
  let start ← look (spanAt tokens)
  match ← look (keywordAt? tokens) with
  | some (.objective sense, width) =>
    move width
    let label ← label? tokens
    let expr ← expr tokens
    return ⟨← place tokens start, sense, label, expr⟩
  | some _ => throw .missingObjective
  | none =>
    if (← look (kindAt tokens)) = .endOfInput then
      throw .missingObjective
    else
      unexpected tokens .objectiveKeyword

/-- What a section keyword opens, if it opens anything; `span` is where the keyword stands. -/
def opened? (span : Span) : SectionKeyword → Walk (Option Part)
  | .subjectTo => return some (.rows (← rows tokens))
  | .bounds => return some (.bounds (← bounds tokens))
  | .generals => return some (.generals (← names tokens))
  | .binaries => return some (.binaries (← names tokens))
  | .finish => return none
  | .objective _ => throw (.secondObjective span)

/-- One more section behind earlier ones, or the end of the document. -/
def part (earlier : List Part) : Walk (List Part ⊕ List Part) := do
  skipNewlines tokens
  if (← look (kindAt tokens)) = .endOfInput then
    return .inr earlier
  else
    let span ← look (spanAt tokens)
    match ← look (keywordAt? tokens) with
    | none => unexpected tokens .sectionKeyword
    | some (keyword, width) =>
      move width
      match ← opened? tokens span keyword with
      | some part => return .inl (earlier ++ [part])
      | none => return .inr earlier

def parts : Walk (List Part) :=
  loop (part tokens) []

/-- A document: comments are left out, and one of them may carry the signature. -/
def document : Walk Document := do
  let seen := tokens.filter fun token => token.kind ≠ .comment
  let objective ← objectiveSection seen
  let parts ← parts seen
  return .ofParts (tokens.findSome? signatureOfComment?) objective parts

end Walk

end LinearProgram
