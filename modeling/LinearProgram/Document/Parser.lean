import LinearProgram.Document.Cursor
import LinearProgram.Document.ParseError
import LinearProgram.Text.Blank
import LinearProgram.Text.Pieces
import LinearProgram.Token.Scan

/-!
# Reading documents

A parser takes a cursor and gives a value and the cursor behind it.  Repetition goes on
until a stopping position; it asks for a proof that the repeated parser makes the rest
shorter, so reading ends on every input.

Line breaks separate nothing but the lines on which section keywords are recognised.
They may stand before every item, and after the signs of a term.
-/

namespace LinearProgram

/-- A value and the position after it, or the reason why there is none. -/
abbrev Reader (α : Type) :=
  Cursor → Except ParseError (α × Cursor)

namespace Reader

/-- Every success consumes at least one token. -/
def Shortens (p : Reader α) : Prop :=
  ∀ c x c', p c = .ok (x, c') → c'.rest.length < c.rest.length

/-- No success ends before the position where it began. -/
def Advances (p : Reader α) : Prop :=
  ∀ c x c', p c = .ok (x, c') → c'.rest.length ≤ c.rest.length

theorem bind_eq_ok_iff {x : Except ε α} {f : α → Except ε β} {b : β} :
    x >>= f = .ok b ↔ ∃ a, x = .ok a ∧ f a = .ok b := by
  cases x <;> simp [bind, Except.bind]

/-- Items one after the other, over line breaks, until a position at which they stop. -/
def manyUntil (stop : Cursor → Bool) (item : Reader α) (h : Shortens item) : Reader (List α) :=
  fun c =>
    let c := c.skipNewlines
    if stop c then .ok ([], c)
    else match _hitem : item c with
      | .error error => .error error
      | .ok (x, next) =>
        match manyUntil stop item h next with
        | .error error => .error error
        | .ok (xs, last) => .ok (x :: xs, last)
termination_by c => c.rest.length
decreasing_by
  exact Nat.lt_of_lt_of_le (h _ _ _ _hitem) (Cursor.length_skipNewlines_le _)

theorem manyUntil_advances {stop : Cursor → Bool} {item : Reader α} (h : Shortens item) :
    Advances (manyUntil stop item h) := by
  intro c
  fun_induction manyUntil stop item h c with
  | case1 c c₁ hstop =>
      intro xs c' hok
      simp only [Except.ok.injEq, Prod.mk.injEq] at hok
      rw [← hok.2]
      exact Cursor.length_skipNewlines_le _
  | case2 c c₁ hstop error hitem => simp
  | case3 c c₁ hstop x next hitem error hrest ih => simp
  | case4 c c₁ hstop x next hitem xs last hrest ih =>
      intro ys c' hok
      simp only [Except.ok.injEq, Prod.mk.injEq] at hok
      rw [← hok.2]
      have hle := ih xs last hrest
      have hlt : next.rest.length < c.skipNewlines.rest.length := h _ _ _ hitem
      have hskip := Cursor.length_skipNewlines_le c
      omega

/-- The failure at a position where something else was expected. -/
def unexpected (expected : Expectation) (c : Cursor) : ParseError :=
  match c.rest with
  | [] => .unexpectedEnd
  | token :: _ => .unexpectedToken expected token

/-- The next token after line breaks, which must have the given kind. -/
def token (kind : TokenKind) : Reader Token := fun c =>
  let c := c.skipNewlines
  match c.rest with
  | [] => .error (unexpected (.token kind) c)
  | token :: tokens =>
    if token.kind = kind then .ok (token, ⟨some token, tokens⟩)
    else .error (unexpected (.token kind) c)

/-- The number of a numeral token. -/
def numeral (token : Token) : Except ParseError Binary64 :=
  match Binary64.ofNumeral? token.text.toList with
  | some value => .ok value
  | none => .error (.invalidNumber token.text)

/-- A name before a colon, if one comes next. -/
def label? (c : Cursor) : Option String × Cursor :=
  let c := c.skipNewlines
  match c.rest with
  | name :: colon :: tokens =>
    if name.kind = .ident ∧ colon.kind = .colon then (some name.text, ⟨some colon, tokens⟩)
    else (none, c)
  | _ => (none, c)

/-- Whether signs taken together are negative, and the position after them. -/
def signsFrom (overNewlines negative : Bool) (previous : Option Token) :
    List Token → Bool × Cursor
  | [] => (negative, ⟨previous, []⟩)
  | token :: tokens =>
    if token.kind = .plus then signsFrom overNewlines negative (some token) tokens
    else if token.kind = .minus then signsFrom overNewlines (!negative) (some token) tokens
    else if overNewlines && token.kind = .newline then
      signsFrom overNewlines negative (some token) tokens
    else (negative, ⟨previous, token :: tokens⟩)

/-- The signs that come next; line breaks after them are skipped when asked for. -/
def signs (overNewlines : Bool) (c : Cursor) : Bool × Cursor :=
  signsFrom overNewlines false c.previous c.rest

/-- The number with its sign changed if told so. -/
def applySign (negative : Bool) (value : Binary64) : Binary64 :=
  if negative then -value else value

/-- One part of an expression: a term, or a number that adds to the constant. -/
inductive Summand where
  | term (term : WrittenTerm)
  | constant (value : Binary64)
deriving DecidableEq

/-- A coefficient with its variable, a number, or a variable; `start` is where it began. -/
def operand (start : Span) (negative : Bool) : Reader Summand := fun c =>
  match c.rest with
  | [] => .error (unexpected .operand c)
  | first :: tokens =>
    if first.kind = .number then do
      let value ← numeral first
      match tokens with
      | [] => .ok (.constant (applySign negative value), ⟨some first, []⟩)
      | second :: later =>
        if second.kind = .ident then
          .ok (.term ⟨start.merge second.span, applySign negative value, second.text⟩,
            ⟨some second, later⟩)
        else
          .ok (.constant (applySign negative value), ⟨some first, second :: later⟩)
    else if first.kind = .ident then
      .ok (.term ⟨start.merge first.span, applySign negative .one, first.text⟩,
        ⟨some first, tokens⟩)
    else
      .error (unexpected .operand c)

/-- A summand, which must have a sign unless it is the first of its expression. -/
def summand (mustSign : Bool) : Reader Summand := fun c =>
  if mustSign && !c.atSign then .error (unexpected .sign c)
  else if c.atSign then operand c.span (signs true c).1 (signs true c).2
  else operand c.span false c

/-- Whether an expression ends here. -/
def atExprEnd (c : Cursor) : Bool :=
  c.atRelation || c.atBlockEnd

theorem length_signsFrom_le
    (overNewlines negative : Bool) (previous : Option Token) (tokens : List Token) :
    (signsFrom overNewlines negative previous tokens).2.rest.length ≤ tokens.length := by
  induction tokens generalizing negative previous with
  | nil => simp [signsFrom]
  | cons token tokens ih =>
      unfold signsFrom
      split
      · exact Nat.le_succ_of_le (ih _ _)
      · split
        · exact Nat.le_succ_of_le (ih _ _)
        · split
          · exact Nat.le_succ_of_le (ih _ _)
          · simp

theorem operand_shortens (start : Span) (negative : Bool) :
    Shortens (operand start negative) := by
  intro c x c' h
  unfold operand at h
  split at h
  · simp at h
  next first tokens hrest =>
    rw [hrest]
    split at h
    · obtain ⟨value, _, h⟩ := bind_eq_ok_iff.mp h
      split at h
      · simp only [Except.ok.injEq, Prod.mk.injEq] at h
        simp [← h.2]
      · split at h <;>
        · simp only [Except.ok.injEq, Prod.mk.injEq] at h
          simp only [← h.2, List.length_cons]
          omega
    · split at h
      · simp only [Except.ok.injEq, Prod.mk.injEq] at h
        simp [← h.2]
      · simp at h

theorem summand_shortens (mustSign : Bool) : Shortens (summand mustSign) := by
  intro c x c' h
  unfold summand at h
  split at h
  · simp at h
  · split at h
    · exact Nat.lt_of_lt_of_le (operand_shortens _ _ _ _ _ h)
        (length_signsFrom_le true false c.previous c.rest)
    · exact operand_shortens _ _ _ _ _ h

/-- The terms in order, and the numbers added up from zero. -/
def exprOf (summands : List Summand) : WrittenExpr where
  terms := summands.filterMap fun
    | .term term => some term
    | .constant _ => none
  constant := summands.foldl (fun sum summand => match summand with
    | .term _ => sum
    | .constant value => sum + value) .zero

/-- An expression, which may be empty. -/
def expr : Reader WrittenExpr := fun c =>
  let c := c.skipNewlines
  if atExprEnd c then .ok (exprOf [], c)
  else do
    let (first, c) ← summand false c
    let (later, c) ← manyUntil atExprEnd (summand true) (summand_shortens true) c
    return (exprOf (first :: later), c)

def relation : Reader Relation := fun c =>
  let c := c.skipNewlines
  match c.rest with
  | [] => .error (unexpected .relation c)
  | token :: tokens =>
    match token.kind with
    | .le => .ok (.le, ⟨some token, tokens⟩)
    | .ge => .ok (.ge, ⟨some token, tokens⟩)
    | .eq => .ok (.eq, ⟨some token, tokens⟩)
    | _ => .error (unexpected .relation c)

/-- Whether a token is a word for infinity. -/
def isInfinityWord (token : Token) : Bool :=
  token.kind = .ident && (asciiLower token.text = "inf" || asciiLower token.text = "infinity")

/-- A number or infinity, with any number of signs before it. -/
def value : Reader Binary64 := fun c =>
  let (negative, c) := signs false c.skipNewlines
  match c.rest with
  | [] => .error (unexpected .number c)
  | token :: tokens =>
    if token.kind = .number then do
      let value ← numeral token
      return (applySign negative value, ⟨some token, tokens⟩)
    else if isInfinityWord token then
      .ok (applySign negative (.infinity false), ⟨some token, tokens⟩)
    else
      .error (unexpected .number c)

theorem token_shortens (kind : TokenKind) : Shortens (token kind) := by
  intro c x c' h
  have hskip := Cursor.length_skipNewlines_le c
  unfold token at h
  dsimp only at h
  split at h
  · simp at h
  next first tokens hrest =>
    rw [hrest] at hskip
    simp only [List.length_cons] at hskip
    split at h
    · simp only [Except.ok.injEq, Prod.mk.injEq] at h
      simp only [← h.2]
      omega
    · simp at h

theorem relation_shortens : Shortens relation := by
  intro c x c' h
  have hskip := Cursor.length_skipNewlines_le c
  unfold relation at h
  dsimp only at h
  split at h
  · simp at h
  next first tokens hrest =>
    rw [hrest] at hskip
    simp only [List.length_cons] at hskip
    split at h
    case h_4 => simp at h
    all_goals
      simp only [Except.ok.injEq, Prod.mk.injEq] at h
      simp only [← h.2]
      omega

theorem value_shortens : Shortens value := by
  intro c x c' h
  have hskip := Cursor.length_skipNewlines_le c
  have hsigns := length_signsFrom_le false false c.skipNewlines.previous c.skipNewlines.rest
  unfold value signs at h
  dsimp only at h
  split at h
  · simp at h
  next first tokens hrest =>
    rw [hrest] at hsigns
    simp only [List.length_cons] at hsigns
    split at h
    · obtain ⟨value, _, h⟩ := bind_eq_ok_iff.mp h
      simp only [pure, Except.pure, Except.ok.injEq, Prod.mk.injEq] at h
      simp only [← h.2]
      omega
    · split at h
      · simp only [Except.ok.injEq, Prod.mk.injEq] at h
        simp only [← h.2]
        omega
      · simp at h

theorem label?_advances (c : Cursor) : (label? c).2.rest.length ≤ c.rest.length := by
  have hskip := Cursor.length_skipNewlines_le c
  unfold label?
  dsimp only
  split
  next name colon tokens hrest =>
    rw [hrest] at hskip
    simp only [List.length_cons] at hskip
    split
    · dsimp only
      omega
    · simp only [hrest, List.length_cons]
      omega
  · exact hskip

theorem expr_advances : Advances expr := by
  intro c x c' h
  have hskip := Cursor.length_skipNewlines_le c
  unfold expr at h
  dsimp only at h
  split at h
  · simp only [Except.ok.injEq, Prod.mk.injEq] at h
    rw [← h.2]
    exact hskip
  · obtain ⟨⟨first, c₁⟩, hfirst, h⟩ := bind_eq_ok_iff.mp h
    obtain ⟨⟨later, c₂⟩, hlater, h⟩ := bind_eq_ok_iff.mp h
    simp only [pure, Except.pure, Except.ok.injEq, Prod.mk.injEq] at h
    have hlt := summand_shortens _ _ _ _ hfirst
    have hle := manyUntil_advances _ _ _ _ hlater
    dsimp only at hle
    rw [← h.2]
    omega

/-- A row of the constraint section. -/
def row : Reader Row := fun c => do
  let start := c.span.start
  let (label, c) := label? c
  let (expr, c) ← expr c
  let (relation, c) ← relation c
  let (rhs, c) ← value c
  return (⟨⟨start, c.lastStop⟩, label, expr, relation, rhs⟩, c)

/-- The sides that a relation to a number bounds. -/
def sidesOf (relation : Relation) (value : Binary64) : Option Binary64 × Option Binary64 :=
  match relation with
  | .le => (none, some value)
  | .ge => (some value, none)
  | .eq => (some value, some value)

/-- Bounds on two sides, those of one relation put over earlier ones. -/
def overSides (sides earlier : Option Binary64 × Option Binary64) :
    Option Binary64 × Option Binary64 :=
  (sides.1.or earlier.1, sides.2.or earlier.2)

/-- Whether a bound statement begins with a number here, or else with a variable. -/
def atBoundValue (c : Cursor) : Bool :=
  match c.rest with
  | [] => false
  | first :: tokens =>
    first.kind = .number || c.atSign ||
      (isInfinityWord first && Cursor.atRelation ⟨some first, tokens⟩)

/-- A number, a relation and a variable, with a second relation and number if one follows. -/
def valueFirstBound (start : Nat) : Reader BoundStatement := fun c => do
  let (first, c) ← value c
  let (inner, c) ← relation c
  let (name, c) ← token .ident c
  let sides := sidesOf inner.flip first
  if c.atRelation then do
    let (outer, c) ← relation c
    let (second, c) ← value c
    let (lower, upper) := overSides (sidesOf outer second) sides
    return (⟨⟨start, c.lastStop⟩, name.text, lower, upper⟩, c)
  else
    return (⟨⟨start, c.lastStop⟩, name.text, sides.1, sides.2⟩, c)

/-- Whether the word `free` comes next. -/
def atFree (c : Cursor) : Bool :=
  match c.rest with
  | [] => false
  | token :: _ => token.kind = .ident && asciiLower token.text = "free"

/-- A variable and the word `free`, or a variable, a relation and a number. -/
def nameFirstBound (start : Nat) : Reader BoundStatement := fun c => do
  let (name, c) ← token .ident c
  if atFree c then do
    let (_, c) ← token .ident c
    return (⟨⟨start, c.lastStop⟩, name.text, some (.infinity true), some (.infinity false)⟩, c)
  else do
    let (relation, c) ← relation c
    let (value, c) ← value c
    let (lower, upper) := sidesOf relation value
    return (⟨⟨start, c.lastStop⟩, name.text, lower, upper⟩, c)

/-- A statement of the bounds section. -/
def boundStatement : Reader BoundStatement := fun c =>
  if atBoundValue c then valueFirstBound c.span.start c
  else if c.kind = .ident then nameFirstBound c.span.start c
  else .error (unexpected .boundStatement c)

theorem row_shortens : Shortens row := by
  intro c x c' h
  unfold row at h
  have hlabel := label?_advances c
  generalize label? c = labelled at h hlabel
  obtain ⟨label, c₀⟩ := labelled
  obtain ⟨⟨e, c₁⟩, hexpr, h⟩ := bind_eq_ok_iff.mp h
  obtain ⟨⟨r, c₂⟩, hrelation, h⟩ := bind_eq_ok_iff.mp h
  obtain ⟨⟨v, c₃⟩, hvalue, h⟩ := bind_eq_ok_iff.mp h
  simp only [pure, Except.pure, Except.ok.injEq, Prod.mk.injEq] at h
  have hexpr := expr_advances _ _ _ hexpr
  have hrelation := relation_shortens _ _ _ hrelation
  have hvalue := value_shortens _ _ _ hvalue
  dsimp only at hlabel hexpr hrelation hvalue
  rw [← h.2]
  omega

theorem valueFirstBound_shortens (start : Nat) : Shortens (valueFirstBound start) := by
  intro c x c' h
  unfold valueFirstBound at h
  obtain ⟨⟨v, c₁⟩, hvalue, h⟩ := bind_eq_ok_iff.mp h
  obtain ⟨⟨r, c₂⟩, hrelation, h⟩ := bind_eq_ok_iff.mp h
  obtain ⟨⟨t, c₃⟩, htoken, h⟩ := bind_eq_ok_iff.mp h
  have hvalue := value_shortens _ _ _ hvalue
  have hrelation := relation_shortens _ _ _ hrelation
  have htoken := token_shortens _ _ _ _ htoken
  dsimp only at h hrelation htoken
  split at h
  · obtain ⟨⟨r', c₄⟩, hrelation', h⟩ := bind_eq_ok_iff.mp h
    obtain ⟨⟨v', c₅⟩, hvalue', h⟩ := bind_eq_ok_iff.mp h
    simp only [pure, Except.pure, Except.ok.injEq, Prod.mk.injEq] at h
    have hrelation' := relation_shortens _ _ _ hrelation'
    have hvalue' := value_shortens _ _ _ hvalue'
    dsimp only at hvalue'
    rw [← h.2]
    omega
  · simp only [pure, Except.pure, Except.ok.injEq, Prod.mk.injEq] at h
    rw [← h.2]
    omega

theorem nameFirstBound_shortens (start : Nat) : Shortens (nameFirstBound start) := by
  intro c x c' h
  unfold nameFirstBound at h
  obtain ⟨⟨t, c₁⟩, htoken, h⟩ := bind_eq_ok_iff.mp h
  have htoken := token_shortens _ _ _ _ htoken
  dsimp only at h
  split at h
  · obtain ⟨⟨f, c₂⟩, hfree, h⟩ := bind_eq_ok_iff.mp h
    simp only [pure, Except.pure, Except.ok.injEq, Prod.mk.injEq] at h
    have hfree := token_shortens _ _ _ _ hfree
    rw [← h.2]
    omega
  · obtain ⟨⟨r, c₂⟩, hrelation, h⟩ := bind_eq_ok_iff.mp h
    obtain ⟨⟨v, c₃⟩, hvalue, h⟩ := bind_eq_ok_iff.mp h
    simp only [pure, Except.pure, Except.ok.injEq, Prod.mk.injEq] at h
    have hrelation := relation_shortens _ _ _ hrelation
    have hvalue := value_shortens _ _ _ hvalue
    dsimp only at hvalue
    rw [← h.2]
    omega

theorem boundStatement_shortens : Shortens boundStatement := by
  intro c x c' h
  unfold boundStatement at h
  split at h
  · exact valueFirstBound_shortens _ _ _ _ h
  · split at h
    · exact nameFirstBound_shortens _ _ _ _ h
    · simp at h

/-- A section other than the objective, with what it holds. -/
inductive Part where
  | rows (rows : List Row)
  | bounds (bounds : List BoundStatement)
  | generals (names : List String)
  | binaries (names : List String)

/-- The names listed in a section. -/
def names : Reader (List String) := fun c => do
  let (tokens, c) ← manyUntil Cursor.atBlockEnd (token .ident) (token_shortens .ident) c
  return (tokens.map Token.text, c)

/-- A section keyword and the section that it opens. -/
def part : Reader Part := fun c =>
  match c.keyword? with
  | none => .error (unexpected .sectionKeyword c)
  | some (.subjectTo, next) => do
    let (rows, next) ← manyUntil Cursor.atBlockEnd row row_shortens next
    return (.rows rows, next)
  | some (.bounds, next) => do
    let (bounds, next) ←
      manyUntil Cursor.atBlockEnd boundStatement boundStatement_shortens next
    return (.bounds bounds, next)
  | some (.generals, next) => do
    let (names, next) ← names next
    return (.generals names, next)
  | some (.binaries, next) => do
    let (names, next) ← names next
    return (.binaries names, next)
  | some (.objective _, _) => .error (.secondObjective c.span)
  | some (.finish, next) => .ok (.rows [], next)

/-- Whether the document ends here: with the input, or with the keyword that says so. -/
def atDocumentEnd (c : Cursor) : Bool :=
  c.rest.isEmpty || (c.keyword?.map Prod.fst) = some .finish

theorem part_shortens : Shortens part := by
  intro c x c' h
  unfold part at h
  split at h
  · simp at h
  next next hkeyword =>
    have hlt := Cursor.length_keyword?_lt hkeyword
    obtain ⟨⟨rows, c₁⟩, hrows, h⟩ := bind_eq_ok_iff.mp h
    simp only [pure, Except.pure, Except.ok.injEq, Prod.mk.injEq] at h
    have hle := manyUntil_advances _ _ _ _ hrows
    rw [← h.2]
    omega
  next next hkeyword =>
    have hlt := Cursor.length_keyword?_lt hkeyword
    obtain ⟨⟨bounds, c₁⟩, hbounds, h⟩ := bind_eq_ok_iff.mp h
    simp only [pure, Except.pure, Except.ok.injEq, Prod.mk.injEq] at h
    have hle := manyUntil_advances _ _ _ _ hbounds
    rw [← h.2]
    omega
  next next hkeyword =>
    have hlt := Cursor.length_keyword?_lt hkeyword
    obtain ⟨⟨listed, c₁⟩, hnames, h⟩ := bind_eq_ok_iff.mp h
    obtain ⟨⟨tokens, c₂⟩, htokens, hnames⟩ := bind_eq_ok_iff.mp hnames
    simp only [pure, Except.pure, Except.ok.injEq, Prod.mk.injEq] at h hnames
    have hle := manyUntil_advances _ _ _ _ htokens
    rw [← h.2, ← hnames.2]
    omega
  next next hkeyword =>
    have hlt := Cursor.length_keyword?_lt hkeyword
    obtain ⟨⟨listed, c₁⟩, hnames, h⟩ := bind_eq_ok_iff.mp h
    obtain ⟨⟨tokens, c₂⟩, htokens, hnames⟩ := bind_eq_ok_iff.mp hnames
    simp only [pure, Except.pure, Except.ok.injEq, Prod.mk.injEq] at h hnames
    have hle := manyUntil_advances _ _ _ _ htokens
    rw [← h.2, ← hnames.2]
    omega
  · simp at h
  next next hkeyword =>
    have hlt := Cursor.length_keyword?_lt hkeyword
    simp only [Except.ok.injEq, Prod.mk.injEq] at h
    rw [← h.2]
    exact hlt

/-- The objective section, with which every document begins. -/
def objectiveSection : Reader ObjectiveSection := fun c =>
  let c := c.skipNewlines
  match c.keyword? with
  | some (.objective sense, next) => do
    let (label, next) := label? next
    let (expr, next) ← expr next
    return (⟨⟨c.span.start, next.lastStop⟩, sense, label, expr⟩, next)
  | some _ => .error .missingObjective
  | none =>
    if c.rest.isEmpty then .error .missingObjective
    else .error (unexpected .objectiveKeyword c)

end Reader

/-- The text of a comment after the mark of a signature, if it is one. -/
def signatureOfComment? (token : Token) : Option String :=
  if token.kind = .comment then
    let body := Text.trim (token.text.toList.dropWhile (· = '\\'))
    (Text.stripStart? "Signature:".toList body).map fun rest => String.ofList (Text.trim rest)
  else
    none

namespace Document

/-- The document that some tokens spell. -/
def ofTokens (tokens : List Token) : Except ParseError Document := do
  let (objective, c) ← Reader.objectiveSection (.ofTokens tokens)
  let (parts, _) ← Reader.manyUntil Reader.atDocumentEnd Reader.part Reader.part_shortens c
  return {
    signature := tokens.findSome? signatureOfComment?
    objective
    rows := parts.flatMap fun
      | .rows rows => rows
      | _ => []
    bounds := parts.flatMap fun
      | .bounds bounds => bounds
      | _ => []
    generals := parts.flatMap fun
      | .generals names => names
      | _ => []
    binaries := parts.flatMap fun
      | .binaries names => names
      | _ => [] }

/-- The document that a text spells. -/
def parse (source : String) : Except ParseError Document :=
  ofTokens (Token.scan source)

end Document

end LinearProgram
