import LinearProgram.Proofs.Document.Collapse

/-!
# Parsers do not see places

Every parser commutes with collapsing: read from collapsed tokens, it gives the same
value or the same error without places.  For sequences of parsers this follows from
`collapsedOutcome_bind`, and for repetition from an induction on the tokens left.  The
main statement is `Document.map_bare_ofTokens`.
-/

namespace LinearProgram

open Token

/-! ## Parts of documents without places -/

def WrittenTerm.bare (term : WrittenTerm) : WrittenTerm :=
  { term with span := ⟨0, 0⟩ }

def WrittenExpr.bare (expr : WrittenExpr) : WrittenExpr :=
  { expr with terms := expr.terms.map WrittenTerm.bare }

def ObjectiveSection.bare (objective : ObjectiveSection) : ObjectiveSection :=
  { objective with span := ⟨0, 0⟩, expr := objective.expr.bare }

def Row.bare (row : Row) : Row :=
  { row with span := ⟨0, 0⟩, expr := row.expr.bare }

def BoundStatement.bare (statement : BoundStatement) : BoundStatement :=
  { statement with span := ⟨0, 0⟩ }

/-- A document without the places of its parts. -/
def Document.bare (document : Document) : Document :=
  { document with
    objective := document.objective.bare
    rows := document.rows.map Row.bare
    bounds := document.bounds.map BoundStatement.bare }

/-- A parse error without the place at which it arose. -/
def ParseError.bare : ParseError → ParseError
  | unexpectedToken expected found => unexpectedToken expected found.worded
  | secondObjective _ => secondObjective ⟨0, 0⟩
  | error => error

namespace Reader

def Summand.bare : Summand → Summand
  | .term written => .term written.bare
  | .constant number => .constant number

def Part.bare : Part → Part
  | .rows items => .rows (items.map Row.bare)
  | .bounds items => .bounds (items.map BoundStatement.bare)
  | .generals items => .generals items
  | .binaries items => .binaries items

/-- The outcome of a parser on collapsed tokens, `f` taking the places off its value. -/
def collapsedOutcome (f : α → α) :
    Except ParseError (α × Cursor) → Except ParseError (α × Cursor)
  | .ok (x, c) => .ok (f x, c.collapsed)
  | .error error => .error error.bare

/-- A parser that commutes with collapsing. -/
def Natural (p : Reader α) (f : α → α) : Prop :=
  ∀ c, p c.collapsed = collapsedOutcome f (p c)

theorem collapsedOutcome_bind {f : α → α} {g : β → β}
    {next next' : α × Cursor → Except ParseError (β × Cursor)}
    (h : ∀ x c, next' (f x, c.collapsed) = collapsedOutcome g (next (x, c)))
    (outcome : Except ParseError (α × Cursor)) :
    collapsedOutcome f outcome >>= next' = collapsedOutcome g (outcome >>= next) := by
  cases outcome with
  | error error => rfl
  | ok found => exact h found.1 found.2

theorem unexpected_collapsed (expected : Expectation) (c : Cursor) :
    unexpected expected c.collapsed = (unexpected expected c).bare := by
  obtain ⟨previous, tokens⟩ := c
  cases tokens with
  | nil => rfl
  | cons token tokens =>
      obtain ⟨later, hlater⟩ := exists_collapse_cons token tokens
      simp only [unexpected, Cursor.collapsed, hlater]
      rfl

theorem ok_bind (x : α) (next : α → Except ε β) : Except.ok x >>= next = next x :=
  rfl

theorem exists_of_isSome_toOption {outcome : Except ε α} (h : outcome.toOption.isSome = true) :
    ∃ x, outcome = .ok x := by
  cases outcome with
  | error error => cases h
  | ok x => exact ⟨x, rfl⟩

theorem eq_ok_of_toOption_eq_some {outcome : Except ε α} {x : α} (h : outcome.toOption = some x) :
    outcome = .ok x := by
  cases outcome with
  | error error => cases h
  | ok y => exact congrArg Except.ok (Option.some.inj h)

/-- Repetition without the proof that it ends. -/
theorem manyUntil_eq (stop : Cursor → Bool) (item : Reader α) (h : Shortens item) (c : Cursor) :
    manyUntil stop item h c =
      if stop c.skipNewlines then .ok ([], c.skipNewlines)
      else item c.skipNewlines >>= fun found => manyUntil stop item h found.2 >>= fun later =>
        .ok (found.1 :: later.1, later.2) := by
  rw [manyUntil]
  split
  · rfl
  · split
    · next herror =>
        rw [herror]
        rfl
    · next hok =>
        rw [hok]
        split
        · next herror =>
            simp only [bind, Except.bind, herror]
        · next hlater =>
            simp only [bind, Except.bind, hlater]

theorem manyUntil_natural {stop : Cursor → Bool} {item : Reader α} {h : Shortens item}
    {f : α → α} (hstop : ∀ c, stop c.collapsed = stop c) (hitem : Natural item f) :
    Natural (manyUntil stop item h) (List.map f) := by
  intro c
  fun_induction manyUntil stop item h c with
  | case1 c c₁ hstopped =>
      rw [manyUntil_eq, Cursor.skipNewlines_collapsed, hstop, if_pos hstopped]
      rfl
  | case2 c c₁ hstopped error herror =>
      rw [manyUntil_eq, Cursor.skipNewlines_collapsed, hstop, if_neg hstopped, hitem, herror]
      rfl
  | case3 c c₁ hstopped x next hok error hrest ih =>
      rw [manyUntil_eq, Cursor.skipNewlines_collapsed, hstop, if_neg hstopped, hitem, hok]
      change manyUntil stop item h next.collapsed >>= _ = _
      rw [ih, hrest]
      rfl
  | case4 c c₁ hstopped x next hok xs last hrest ih =>
      rw [manyUntil_eq, Cursor.skipNewlines_collapsed, hstop, if_neg hstopped, hitem, hok]
      change manyUntil stop item h next.collapsed >>= _ = _
      rw [ih, hrest]
      rfl

/-! ## Signs -/

theorem signsFrom_plus {token : Token} (h : token.kind = .plus) (overNewlines negative : Bool)
    (previous : Option Token) (tokens : List Token) :
    signsFrom overNewlines negative previous (token :: tokens) =
      signsFrom overNewlines negative (some token) tokens := by
  rw [signsFrom, if_pos h]

theorem signsFrom_minus {token : Token} (h : token.kind = .minus) (overNewlines negative : Bool)
    (previous : Option Token) (tokens : List Token) :
    signsFrom overNewlines negative previous (token :: tokens) =
      signsFrom overNewlines (!negative) (some token) tokens := by
  simp [signsFrom, h]

theorem signsFrom_newline {token : Token} (h : token.kind = .newline) (negative : Bool)
    (previous : Option Token) (tokens : List Token) :
    signsFrom true negative previous (token :: tokens) =
      signsFrom true negative (some token) tokens := by
  simp [signsFrom, h]

theorem signsFrom_stop {token : Token} {overNewlines : Bool} (hplus : token.kind ≠ .plus)
    (hminus : token.kind ≠ .minus)
    (hnewline : token.kind = .newline → overNewlines = false)
    (negative : Bool) (previous : Option Token) (tokens : List Token) :
    signsFrom overNewlines negative previous (token :: tokens) =
      (negative, ⟨previous, token :: tokens⟩) := by
  have hskip : ¬(overNewlines && decide (token.kind = .newline)) = true := by
    intro hboth
    rw [Bool.and_eq_true, decide_eq_true_eq] at hboth
    exact absurd (hnewline hboth.2) (by simp [hboth.1])
  rw [signsFrom, if_neg hplus, if_neg hminus, if_neg hskip]

theorem signsFrom_collapse (overNewlines negative : Bool) (previous : Option Token)
    (tokens : List Token) :
    signsFrom overNewlines negative (previous.map worded) (collapse tokens) =
      ((signsFrom overNewlines negative previous tokens).1,
        (signsFrom overNewlines negative previous tokens).2.collapsed) := by
  induction tokens generalizing negative previous with
  | nil => rfl
  | cons token tokens ih =>
      by_cases hplus : token.kind = .plus
      · have hne : token.kind ≠ .newline := by simp [hplus]
        rw [collapse_cons_of_ne hne, signsFrom_plus (by simpa using hplus), signsFrom_plus hplus,
          ← worded_of_ne hne]
        exact ih negative (some token)
      by_cases hminus : token.kind = .minus
      · have hne : token.kind ≠ .newline := by simp [hminus]
        rw [collapse_cons_of_ne hne, signsFrom_minus (by simpa using hminus),
          signsFrom_minus hminus, ← worded_of_ne hne]
        exact ih (!negative) (some token)
      by_cases hskip : token.kind = .newline ∧ overNewlines = true
      · obtain ⟨hnewline, rfl⟩ := hskip
        rw [signsFrom_newline hnewline, collapse]
        split
        · next hand =>
            -- The break that is dropped is overwritten by the next one.
            cases tokens with
            | nil => exact absurd hand.2 (by simp)
            | cons next tokens =>
                have hnext : next.kind = .newline := by simpa using hand.2
                rw [ih, signsFrom_newline hnext, signsFrom_newline hnext]
        · rw [signsFrom_newline (by simpa using hnewline)]
          exact ih negative (some token)
      · have hstop : token.kind = .newline → overNewlines = false := by
          intro hnewline
          exact Bool.eq_false_iff.mpr fun hover => hskip ⟨hnewline, hover⟩
        obtain ⟨later, hlater⟩ := exists_collapse_cons token tokens
        rw [signsFrom_stop hplus hminus hstop, Cursor.collapsed, hlater,
          signsFrom_stop (by simpa using hplus) (by simpa using hminus) (by simpa using hstop)]

theorem signs_collapsed (overNewlines : Bool) (c : Cursor) :
    signs overNewlines c.collapsed =
      ((signs overNewlines c).1, (signs overNewlines c).2.collapsed) :=
  signsFrom_collapse overNewlines false c.previous c.rest

/-! ## Expressions -/

theorem numeral_bare (token : Token) : numeral token.bare = numeral token :=
  rfl

theorem numeral_error_bare {token : Token} {error : ParseError} (h : numeral token = .error error) :
    error.bare = error := by
  rw [numeral] at h
  split at h
  · exact nomatch h
  · rw [← Except.error.inj h]
    rfl

/-- A failure at a position of its own is natural. -/
theorem error_unexpected_collapsed (expected : Expectation) (f : α → α) (c : Cursor) :
    (.error (unexpected expected c.collapsed) : Except ParseError (α × Cursor)) =
      collapsedOutcome f (.error (unexpected expected c)) :=
  congrArg Except.error (unexpected_collapsed expected c)

section Operand

variable {first : Token} {value : Binary64} (start : Span) (negative : Bool)
  (previous : Option Token) (tokens : List Token)

theorem operand_invalid {error : ParseError} (hkind : first.kind = .number)
    (hvalue : numeral first = .error error) :
    operand start negative ⟨previous, first :: tokens⟩ = .error error := by
  simp only [operand, hkind, hvalue]
  rfl

/-- A number that no variable follows. -/
theorem operand_constant (hkind : first.kind = .number) (hvalue : numeral first = .ok value)
    (hnext : (Cursor.mk (some first) tokens).kind ≠ .ident) :
    operand start negative ⟨previous, first :: tokens⟩ =
      .ok (.constant (applySign negative value), ⟨some first, tokens⟩) := by
  simp only [operand, hkind, hvalue]
  cases tokens with
  | nil => rfl
  | cons second later =>
      have hsecond : second.kind ≠ .ident := hnext
      change (if second.kind = .ident then _ else _) = _
      rw [if_neg hsecond]

/-- A number before a variable is its coefficient. -/
theorem operand_term {second : Token} (hkind : first.kind = .number)
    (hvalue : numeral first = .ok value) (hsecond : second.kind = .ident) :
    operand start negative ⟨previous, first :: second :: tokens⟩ =
      .ok (.term ⟨start.merge second.span, applySign negative value, second.text⟩,
        ⟨some second, tokens⟩) := by
  simp only [operand, hkind, hvalue]
  change (if second.kind = .ident then _ else _) = _
  rw [if_pos hsecond]

theorem operand_variable (hkind : first.kind = .ident) :
    operand start negative ⟨previous, first :: tokens⟩ =
      .ok (.term ⟨start.merge first.span, applySign negative .one, first.text⟩,
        ⟨some first, tokens⟩) := by
  have hnumber : first.kind ≠ .number := by simp [hkind]
  simp only [operand]
  rw [if_neg hnumber, if_pos hkind]

theorem operand_unexpected {c : Cursor} (hnumber : c.kind ≠ .number) (hident : c.kind ≠ .ident) :
    operand start negative c = .error (unexpected .operand c) := by
  obtain ⟨previous, tokens⟩ := c
  cases tokens with
  | nil => rfl
  | cons first tokens =>
      have hnumber' : first.kind ≠ .number := hnumber
      have hident' : first.kind ≠ .ident := hident
      simp only [operand]
      rw [if_neg hnumber', if_neg hident']

end Operand

theorem operand_collapsed (start : Span) (negative : Bool) (c : Cursor) :
    operand ⟨0, 0⟩ negative c.collapsed =
      collapsedOutcome Summand.bare (operand start negative c) := by
  by_cases hnumber : c.kind = .number
  · obtain ⟨previous, _ | ⟨first, tokens⟩⟩ := c
    · exact nomatch hnumber
    have hkind : first.kind = .number := hnumber
    have hkindBare : first.bare.kind = .number := hnumber
    have hne : first.kind ≠ .newline := by simp [hkind]
    rw [Cursor.collapsed_cons_of_ne hne]
    cases hvalue : numeral first with
    | error error =>
        have hvalueBare : numeral first.bare = .error error := hvalue
        rw [operand_invalid _ _ _ _ hkind hvalue, operand_invalid _ _ _ _ hkindBare hvalueBare]
        exact (congrArg Except.error (numeral_error_bare hvalue)).symm
    | ok value =>
        have hvalueBare : numeral first.bare = .ok value := hvalue
        by_cases hnext : (Cursor.mk (some first) tokens).kind = .ident
        · obtain _ | ⟨second, later⟩ := tokens
          · exact nomatch hnext
          have hsecond : second.kind = .ident := hnext
          have hsecondBare : second.bare.kind = .ident := hnext
          have hsecondNe : second.kind ≠ .newline := by simp [hsecond]
          rw [operand_term _ _ _ _ hkind hvalue hsecond, collapse_cons_of_ne hsecondNe,
            operand_term _ _ _ _ hkindBare hvalueBare hsecondBare]
          rw [collapsedOutcome, Cursor.collapsed_some_of_ne hsecondNe]
          rfl
        · have hcollapsed : (Cursor.mk (some first.bare) (collapse tokens)).kind ≠ .ident := by
            rw [← Cursor.collapsed_some_of_ne hne, Cursor.kind_collapsed]
            exact hnext
          rw [operand_constant _ _ _ _ hkind hvalue hnext,
            operand_constant _ _ _ _ hkindBare hvalueBare hcollapsed]
          rw [collapsedOutcome, Cursor.collapsed_some_of_ne hne]
          rfl
  by_cases hident : c.kind = .ident
  · obtain ⟨previous, _ | ⟨first, tokens⟩⟩ := c
    · exact nomatch hident
    have hkind : first.kind = .ident := hident
    have hkindBare : first.bare.kind = .ident := hident
    have hne : first.kind ≠ .newline := by simp [hkind]
    rw [Cursor.collapsed_cons_of_ne hne, operand_variable _ _ _ _ hkind,
      operand_variable _ _ _ _ hkindBare]
    rw [collapsedOutcome, Cursor.collapsed_some_of_ne hne]
    rfl
  · rw [operand_unexpected _ _ hnumber hident,
      operand_unexpected _ _ (by rwa [Cursor.kind_collapsed]) (by rwa [Cursor.kind_collapsed])]
    exact error_unexpected_collapsed _ _ _

theorem summand_natural (mustSign : Bool) : Natural (summand mustSign) Summand.bare := by
  intro c
  rw [summand, summand, Cursor.atSign_collapsed]
  split
  · exact error_unexpected_collapsed _ _ c
  · split
    · rw [signs_collapsed, Cursor.span_collapsed]
      exact operand_collapsed _ _ _
    · rw [Cursor.span_collapsed]
      exact operand_collapsed _ _ _

theorem exprOf_bare (summands : List Summand) :
    exprOf (summands.map Summand.bare) = (exprOf summands).bare := by
  have hterms : (exprOf (summands.map Summand.bare)).terms =
      (exprOf summands).terms.map WrittenTerm.bare := by
    simp only [exprOf, List.filterMap_map, List.map_filterMap]
    congr 1
    funext summand
    cases summand <;> rfl
  have hconstant : (exprOf (summands.map Summand.bare)).constant = (exprOf summands).constant := by
    simp only [exprOf, List.foldl_map]
    congr 1
    funext sum summand
    cases summand <;> rfl
  rw [WrittenExpr.bare, ← hterms, ← hconstant]

theorem atExprEnd_collapsed (c : Cursor) : atExprEnd c.collapsed = atExprEnd c := by
  rw [atExprEnd, atExprEnd, Cursor.atRelation_collapsed, Cursor.atBlockEnd_collapsed]

theorem expr_natural : Natural expr WrittenExpr.bare := by
  intro c
  rw [expr, expr, Cursor.skipNewlines_collapsed, atExprEnd_collapsed]
  split
  · rfl
  · rw [summand_natural]
    apply collapsedOutcome_bind
    intro first c
    dsimp only
    rw [manyUntil_natural atExprEnd_collapsed (summand_natural true)]
    apply collapsedOutcome_bind
    intro later c
    simp [collapsedOutcome, ← exprOf_bare, pure, Except.pure]

/-! ## Single tokens, relations and values -/

theorem token_natural (kind : TokenKind) : Natural (token kind) Token.bare := by
  intro c
  have hne := c.kind_skipNewlines_ne
  rw [token, token, Cursor.skipNewlines_collapsed]
  generalize c.skipNewlines = d at hne ⊢
  obtain ⟨previous, _ | ⟨first, tokens⟩⟩ := d
  · rfl
  · have hfirst : first.kind ≠ .newline := hne
    rw [Cursor.collapsed_cons_of_ne hfirst]
    dsimp only
    by_cases hkind : first.kind = kind
    · have hkindBare : first.bare.kind = kind := hkind
      rw [if_pos hkind, if_pos hkindBare, collapsedOutcome, Cursor.collapsed_some_of_ne hfirst]
    · have hkindBare : first.bare.kind ≠ kind := hkind
      rw [if_neg hkind, if_neg hkindBare, ← Cursor.collapsed_cons_of_ne hfirst]
      exact error_unexpected_collapsed _ _ _

theorem relation_natural : Natural relation id := by
  intro c
  have hne := c.kind_skipNewlines_ne
  rw [relation, relation, Cursor.skipNewlines_collapsed]
  generalize c.skipNewlines = d at hne ⊢
  obtain ⟨previous, _ | ⟨first, tokens⟩⟩ := d
  · rfl
  · have hfirst : first.kind ≠ .newline := hne
    rw [Cursor.collapsed_cons_of_ne hfirst]
    simp only [kind_bare]
    split
    case h_4 =>
      rw [← Cursor.collapsed_cons_of_ne hfirst]
      exact error_unexpected_collapsed _ _ _
    all_goals
      rw [collapsedOutcome, Cursor.collapsed_some_of_ne hfirst]
      rfl

theorem isInfinityWord_worded (token : Token) :
    isInfinityWord token.worded = isInfinityWord token := by
  by_cases hkind : token.kind = .newline
  · simp [isInfinityWord, hkind]
  · rw [worded_of_ne hkind]
    rfl

theorem value_natural : Natural value id := by
  intro c
  rw [value, value, Cursor.skipNewlines_collapsed, signs_collapsed]
  generalize signs false c.skipNewlines = signed
  obtain ⟨negative, previous, _ | ⟨first, tokens⟩⟩ := signed
  · rfl
  dsimp only
  by_cases hfirst : first.kind = .newline
  · obtain ⟨later, hlater⟩ := exists_collapse_cons first tokens
    have hinfinity : isInfinityWord first = false := by simp [isInfinityWord, hfirst]
    simp only [Cursor.collapsed, hlater, kind_worded, isInfinityWord_worded, hinfinity, hfirst,
      reduceCtorEq, if_false, Bool.false_eq_true]
    rw [← hlater]
    exact error_unexpected_collapsed _ id ⟨previous, first :: tokens⟩
  · rw [Cursor.collapsed_cons_of_ne hfirst, ← worded_of_ne hfirst]
    simp only [kind_worded, isInfinityWord_worded]
    split
    · rw [worded_of_ne hfirst, numeral_bare]
      cases hvalue : numeral first with
      | error error => exact (congrArg Except.error (numeral_error_bare hvalue)).symm
      | ok number =>
          change _ = Except.ok (_, Cursor.collapsed _)
          rw [Cursor.collapsed_some_of_ne hfirst]
          rfl
    · split
      · rw [collapsedOutcome, worded_of_ne hfirst, Cursor.collapsed_some_of_ne hfirst]
        rfl
      · rw [worded_of_ne hfirst, ← Cursor.collapsed_cons_of_ne hfirst]
        exact error_unexpected_collapsed _ _ _

/-! ## Rows -/

theorem label?_collapsed (c : Cursor) :
    label? c.collapsed = ((label? c).1, (label? c).2.collapsed) := by
  have hne := c.kind_skipNewlines_ne
  rw [label?, label?, Cursor.skipNewlines_collapsed]
  generalize c.skipNewlines = d at hne ⊢
  obtain ⟨previous, _ | ⟨name, _ | ⟨colon, tokens⟩⟩⟩ := d
  · rfl
  · have hname : name.kind ≠ .newline := hne
    rw [Cursor.collapsed_cons_of_ne hname]
    rfl
  · have hname : name.kind ≠ .newline := hne
    obtain ⟨later, hlater⟩ := exists_collapse_cons colon tokens
    rw [Cursor.collapsed_cons_of_ne hname, hlater]
    simp only [kind_bare, text_bare, kind_worded]
    split
    · next hlabel =>
        have hcolon : colon.kind ≠ .newline := by simp [hlabel.2]
        rw [collapse_cons_of_ne hcolon] at hlater
        rw [Cursor.collapsed_some_of_ne hcolon, worded_of_ne hcolon, (List.cons.inj hlater).2]
    · rw [Cursor.collapsed_cons_of_ne hname, hlater]

theorem row_natural : Natural row Row.bare := by
  intro c
  rw [row, row, label?_collapsed, Cursor.span_collapsed]
  obtain ⟨label, d⟩ := label? c
  dsimp only
  rw [expr_natural]
  apply collapsedOutcome_bind
  intro found d
  dsimp only
  rw [relation_natural]
  apply collapsedOutcome_bind
  intro relation d
  dsimp only
  rw [value_natural]
  apply collapsedOutcome_bind
  intro rhs d
  dsimp only
  rw [Cursor.lastStop_collapsed]
  rfl

/-! ## Bounds -/

theorem atBoundValue_collapsed (c : Cursor) : atBoundValue c.collapsed = atBoundValue c := by
  have hsign := Cursor.atSign_collapsed c
  obtain ⟨previous, _ | ⟨first, tokens⟩⟩ := c
  · rfl
  · obtain ⟨later, hlater⟩ := exists_collapse_cons first tokens
    have hcollapsed : (Cursor.mk previous (first :: tokens)).collapsed =
        ⟨previous.map worded, first.worded :: later⟩ := by rw [Cursor.collapsed, hlater]
    rw [hcollapsed] at hsign ⊢
    simp only [atBoundValue, hsign, kind_worded, isInfinityWord_worded]
    by_cases hinfinity : isInfinityWord first = true
    · have hkind : first.kind = .ident := by
        rw [isInfinityWord, Bool.and_eq_true, decide_eq_true_eq] at hinfinity
        exact hinfinity.1
      have hne : first.kind ≠ .newline := by simp [hkind]
      rw [collapse_cons_of_ne hne] at hlater
      rw [← (List.cons.inj hlater).2, worded_of_ne hne, ← Cursor.collapsed_some_of_ne hne,
        Cursor.atRelation_collapsed]
    · rw [Bool.not_eq_true] at hinfinity
      rw [hinfinity, Bool.false_and, Bool.false_and]

theorem valueFirstBound_collapsed (start : Nat) (c : Cursor) :
    valueFirstBound 0 c.collapsed =
      collapsedOutcome BoundStatement.bare (valueFirstBound start c) := by
  rw [valueFirstBound, valueFirstBound, value_natural]
  apply collapsedOutcome_bind
  intro first d
  dsimp only
  rw [relation_natural]
  apply collapsedOutcome_bind
  intro inner d
  dsimp only
  rw [token_natural]
  apply collapsedOutcome_bind
  intro name d
  dsimp only
  rw [Cursor.atRelation_collapsed]
  split
  · rw [relation_natural]
    apply collapsedOutcome_bind
    intro outer d
    dsimp only
    rw [value_natural]
    apply collapsedOutcome_bind
    intro second d
    dsimp only
    rw [Cursor.lastStop_collapsed]
    rfl
  · rw [Cursor.lastStop_collapsed]
    rfl

theorem atFree_collapsed (c : Cursor) : atFree c.collapsed = atFree c := by
  obtain ⟨previous, _ | ⟨first, tokens⟩⟩ := c
  · rfl
  · by_cases hfirst : first.kind = .newline
    · obtain ⟨later, hlater⟩ := exists_collapse_cons first tokens
      simp [atFree, Cursor.collapsed, hlater, hfirst]
    · rw [Cursor.collapsed_cons_of_ne hfirst]
      rfl

theorem nameFirstBound_collapsed (start : Nat) (c : Cursor) :
    nameFirstBound 0 c.collapsed =
      collapsedOutcome BoundStatement.bare (nameFirstBound start c) := by
  rw [nameFirstBound, nameFirstBound, token_natural]
  apply collapsedOutcome_bind
  intro name d
  dsimp only
  rw [atFree_collapsed]
  split
  · rw [token_natural]
    apply collapsedOutcome_bind
    intro word d
    dsimp only
    rw [Cursor.lastStop_collapsed]
    rfl
  · rw [relation_natural]
    apply collapsedOutcome_bind
    intro relation d
    dsimp only
    rw [value_natural]
    apply collapsedOutcome_bind
    intro value d
    dsimp only
    rw [Cursor.lastStop_collapsed]
    rfl

theorem boundStatement_natural : Natural boundStatement BoundStatement.bare := by
  intro c
  rw [boundStatement, boundStatement, atBoundValue_collapsed, Cursor.kind_collapsed,
    Cursor.span_collapsed]
  split
  · exact valueFirstBound_collapsed _ _
  · split
    · exact nameFirstBound_collapsed _ _
    · exact error_unexpected_collapsed _ _ _

/-! ## Sections -/

theorem names_natural : Natural names id := by
  intro c
  rw [names, names, manyUntil_natural Cursor.atBlockEnd_collapsed (token_natural .ident)]
  apply collapsedOutcome_bind
  intro tokens d
  simp [collapsedOutcome, pure, Except.pure, Function.comp_def]

theorem part_natural : Natural part Part.bare := by
  intro c
  rw [part, part, Cursor.keyword?_collapsed]
  rcases c.keyword? with _ | ⟨word, next⟩
  · exact error_unexpected_collapsed _ _ _
  · cases word with
    | objective sense => rw [Cursor.span_collapsed]; rfl
    | subjectTo =>
        dsimp only [Option.map_some]
        rw [manyUntil_natural Cursor.atBlockEnd_collapsed row_natural]
        exact collapsedOutcome_bind (fun _ _ => rfl) _
    | bounds =>
        dsimp only [Option.map_some]
        rw [manyUntil_natural Cursor.atBlockEnd_collapsed boundStatement_natural]
        exact collapsedOutcome_bind (fun _ _ => rfl) _
    | generals =>
        dsimp only [Option.map_some]
        rw [names_natural]
        exact collapsedOutcome_bind (fun _ _ => rfl) _
    | binaries =>
        dsimp only [Option.map_some]
        rw [names_natural]
        exact collapsedOutcome_bind (fun _ _ => rfl) _
    | finish => rfl

theorem atDocumentEnd_collapsed (c : Cursor) : atDocumentEnd c.collapsed = atDocumentEnd c := by
  rw [atDocumentEnd, atDocumentEnd, Cursor.isEmpty_rest_collapsed, Cursor.keyword?_collapsed,
    Option.map_map]
  rfl

theorem objectiveSection_natural : Natural objectiveSection ObjectiveSection.bare := by
  intro c
  rw [objectiveSection, objectiveSection, Cursor.skipNewlines_collapsed,
    Cursor.keyword?_collapsed, Cursor.span_collapsed, Cursor.isEmpty_rest_collapsed]
  generalize c.skipNewlines = d
  rcases hword : d.keyword? with _ | ⟨word, next⟩
  · dsimp only [Option.map_none]
    split
    · rfl
    · exact error_unexpected_collapsed _ _ _
  · cases word with
    | objective sense =>
        dsimp only [Option.map_some]
        rw [label?_collapsed]
        obtain ⟨label, behind⟩ := label? next
        dsimp only
        rw [expr_natural]
        apply collapsedOutcome_bind
        intro found last
        dsimp only
        rw [Cursor.lastStop_collapsed]
        rfl
    | _ => rfl

end Reader

namespace Document

def rowsOfPart : Reader.Part → List Row
  | .rows rows => rows
  | _ => []

def boundsOfPart : Reader.Part → List BoundStatement
  | .bounds bounds => bounds
  | _ => []

def generalsOfPart : Reader.Part → List String
  | .generals names => names
  | _ => []

def binariesOfPart : Reader.Part → List String
  | .binaries names => names
  | _ => []

theorem rowsOfPart_bare (part : Reader.Part) :
    rowsOfPart part.bare = (rowsOfPart part).map Row.bare := by
  cases part <;> rfl

theorem boundsOfPart_bare (part : Reader.Part) :
    boundsOfPart part.bare = (boundsOfPart part).map BoundStatement.bare := by
  cases part <;> rfl

theorem generalsOfPart_bare (part : Reader.Part) :
    generalsOfPart part.bare = (generalsOfPart part).map id := by
  cases part <;> simp [generalsOfPart, Reader.Part.bare]

theorem binariesOfPart_bare (part : Reader.Part) :
    binariesOfPart part.bare = (binariesOfPart part).map id := by
  cases part <;> simp [binariesOfPart, Reader.Part.bare]

theorem flatMap_map_of_forall {f : α → α} {g : α → List β} {h : β → β}
    (hcomm : ∀ x, g (f x) = (g x).map h) (xs : List α) :
    (xs.map f).flatMap g = (xs.flatMap g).map h := by
  rw [List.flatMap_map, List.map_flatMap]
  exact congrArg xs.flatMap (funext hcomm)

/-- The document of an objective and the sections behind it. -/
def ofParts (signature : Option String) (objective : ObjectiveSection)
    (parts : List Reader.Part) : Document where
  signature := signature
  objective := objective
  rows := parts.flatMap rowsOfPart
  bounds := parts.flatMap boundsOfPart
  generals := parts.flatMap generalsOfPart
  binaries := parts.flatMap binariesOfPart

theorem ofParts_map_bare (signature : Option String) (objective : ObjectiveSection)
    (parts : List Reader.Part) :
    ofParts signature objective.bare (parts.map Reader.Part.bare) =
      (ofParts signature objective parts).bare := by
  have hrows := flatMap_map_of_forall rowsOfPart_bare parts
  have hbounds := flatMap_map_of_forall boundsOfPart_bare parts
  have hgenerals := flatMap_map_of_forall generalsOfPart_bare parts
  have hbinaries := flatMap_map_of_forall binariesOfPart_bare parts
  rw [List.map_id] at hgenerals hbinaries
  rw [ofParts, hrows, hbounds, hgenerals, hbinaries]
  rfl

/-- The document behind a position, with a given signature. -/
def sectionsFrom (signature : Option String) (c : Cursor) : Except ParseError Document := do
  let (objective, c) ← Reader.objectiveSection c
  let (parts, _) ← Reader.manyUntil Reader.atDocumentEnd Reader.part Reader.part_shortens c
  return ofParts signature objective parts

theorem ofTokens_eq (tokens : List Token) :
    ofTokens tokens =
      sectionsFrom (tokens.findSome? signatureOfComment?) (Cursor.ofTokens tokens) :=
  rfl

/-- What reading tokens gives, without places. -/
def bareOutcome : Except ParseError Document → Except ParseError Document
  | .ok document => .ok document.bare
  | .error error => .error error.bare

theorem bareOutcome_bind {f : α → α} {next next' : α × Cursor → Except ParseError Document}
    (h : ∀ x c, next' (f x, c.collapsed) = bareOutcome (next (x, c)))
    (outcome : Except ParseError (α × Cursor)) :
    Reader.collapsedOutcome f outcome >>= next' = bareOutcome (outcome >>= next) := by
  cases outcome with
  | error error => rfl
  | ok found => exact h found.1 found.2

theorem sectionsFrom_collapsed (signature : Option String) (c : Cursor) :
    sectionsFrom signature c.collapsed = bareOutcome (sectionsFrom signature c) := by
  rw [sectionsFrom, sectionsFrom, Reader.objectiveSection_natural]
  apply bareOutcome_bind
  intro objective d
  dsimp only
  rw [Reader.manyUntil_natural Reader.atDocumentEnd_collapsed Reader.part_natural]
  apply bareOutcome_bind
  intro parts last
  exact congrArg Except.ok (ofParts_map_bare signature objective parts)

/-- Documents read from tokens that differ in nothing but places and breaks agree. -/
theorem bareOutcome_ofTokens_eq {tokens tokens' : List Token}
    (hsignature : tokens.findSome? signatureOfComment? = tokens'.findSome? signatureOfComment?)
    (hcollapsed : (Cursor.ofTokens tokens).collapsed = (Cursor.ofTokens tokens').collapsed) :
    bareOutcome (ofTokens tokens) = bareOutcome (ofTokens tokens') := by
  rw [ofTokens_eq, ofTokens_eq, ← sectionsFrom_collapsed, ← sectionsFrom_collapsed, hcollapsed,
    hsignature]

/-- The places of tokens do not matter to the document that they spell. -/
theorem bareOutcome_ofTokens_map_bare (tokens : List Token) :
    bareOutcome (ofTokens tokens) = bareOutcome (ofTokens (tokens.map Token.bare)) := by
  apply bareOutcome_ofTokens_eq
  · rw [List.findSome?_map]
    rfl
  · rw [Cursor.collapsed, Cursor.collapsed, Cursor.ofTokens, Cursor.ofTokens, List.filter_map]
    refine congrArg (Cursor.mk none) (collapse_eq_of_map_bare_eq ?_)
    rw [List.map_map]
    rfl

end Document

end LinearProgram
