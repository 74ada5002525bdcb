import LinearProgram.Proofs.Document.Alike
import LinearProgram.Proofs.Document.Sections

/-!
# Reading from alike positions

No parser gets past a token that bars it, unless it reads a name that is not valid.  From
level positions, a parser that succeeds with valid names at the first succeeds at the
second with the same value, and it ends at alike positions.  Both facts together are
`Guarded`.  A guarded parser that goes over line breaks first does so from alike positions
(`Guarded.alike`), and so do parsers that are put together from such parsers.  The main
statements are `follows_manyUntil` and `guarded_expr`.
-/

namespace LinearProgram

open Token

/-- Names that are all valid. -/
def ValidNames (names : List String) : Prop :=
  ∀ name ∈ names, (Name.ofText name).IsValid

theorem validNames_nil : ValidNames [] :=
  fun _ hmem => absurd hmem List.not_mem_nil

theorem ValidNames.left {names names' : List String} (h : ValidNames (names ++ names')) :
    ValidNames names :=
  fun name hname => h name (List.mem_append_left names' hname)

theorem ValidNames.right {names names' : List String} (h : ValidNames (names ++ names')) :
    ValidNames names' :=
  fun name hname => h name (List.mem_append_right names hname)

theorem not_validNames_of_unclosed {token : Token} (h : token.Unclosed) {names : List String}
    (hmem : token.text ∈ names) : ¬ValidNames names :=
  fun hvalid => h.not_isValid (hvalid token.text hmem)

namespace Reader

/-- A parser that is barred, and that reads the same from level positions. -/
structure Guarded (p : Reader α) (names : α → List String) : Prop where
  refuses : ∀ {c x d}, Barred c.rest → p c = .ok (x, d) → ¬ValidNames (names x)
  follows : ∀ {c c' x d}, c.Level c' → p c = .ok (x, d) → ValidNames (names x) →
    ∃ d', p c' = .ok (x, d') ∧ d.Alike d'

/-- A parser that begins by going over line breaks. -/
def Skips (p : Reader α) : Prop :=
  ∀ c, p c.skipNewlines = p c

/-- A parser that reads the same from alike positions. -/
def Follows (p : Reader α) (names : α → List String) : Prop :=
  ∀ ⦃c c' d : Cursor⦄ ⦃x : α⦄, c.Alike c' → p c = .ok (x, d) → ValidNames (names x) →
    ∃ d', p c' = .ok (x, d') ∧ d.Alike d'

theorem Guarded.alike {p : Reader α} {names : α → List String} (hp : Guarded p names)
    (hskips : Skips p) : Follows p names := by
  intro c c' d x h hok hnames
  rw [← hskips] at hok
  rw [← hskips c']
  rcases h.skipNewlines with hbarred | hlevel
  · exact absurd hnames (hp.refuses hbarred hok)
  · exact hp.follows hlevel hok hnames

/-! ## Parsers put together -/

/-- One parser after another. -/
def andThen (p : Reader α) (g : α → Reader β) : Reader β := fun c =>
  p c >>= fun found => g found.1 found.2

/-- Nothing more is read; the value depends at most on where the last token ends. -/
def placed (f : Nat → α) : Reader α := fun c =>
  .ok (f c.lastStop, c)

/-- One parser or another, as the position tells. -/
def branch (test : Cursor → Bool) (p q : Reader α) : Reader α := fun c =>
  if test c then p c else q c

section Together

variable {p q : Reader α} {g : α → Reader β} {names : α → List String} {names' : β → List String}

theorem andThen_eq_ok_iff {c d : Cursor} {y : β} :
    andThen p g c = .ok (y, d) ↔ ∃ x e, p c = .ok (x, e) ∧ g x e = .ok (y, d) := by
  rw [andThen, bind_eq_ok_iff, Prod.exists]

theorem placed_eq_ok_iff {f : Nat → α} {c d : Cursor} {x : α} :
    placed f c = .ok (x, d) ↔ f c.lastStop = x ∧ c = d := by
  rw [placed, Except.ok.injEq, Prod.mk.injEq]

theorem follows_placed (f : Nat → α) : Follows (placed f) names := by
  intro c c' d x h hok _
  obtain ⟨rfl, rfl⟩ := placed_eq_ok_iff.mp hok
  exact ⟨c', placed_eq_ok_iff.mpr ⟨by rw [h.stop, h.stop'], rfl⟩, h⟩

theorem Follows.andThen (hp : Follows p names) (hg : ∀ x, Follows (g x) names')
    (hnames : ∀ ⦃x c y d⦄, g x c = .ok (y, d) → ValidNames (names' y) → ValidNames (names x)) :
    Follows (andThen p g) names' := by
  intro c c' d y h hok hy
  obtain ⟨x, e, hx, hok⟩ := andThen_eq_ok_iff.mp hok
  obtain ⟨e', hx', he⟩ := hp h hx (hnames hok hy)
  obtain ⟨d', hok', hd⟩ := hg x he hok hy
  exact ⟨d', andThen_eq_ok_iff.mpr ⟨x, e', hx', hok'⟩, hd⟩

/-- Behind a parser that reads no names, any names may be read. -/
theorem Follows.andThen_nil (hp : Follows p fun _ => []) (hg : ∀ x, Follows (g x) names') :
    Follows (Reader.andThen p g) names' :=
  hp.andThen hg fun _ _ _ _ _ _ => validNames_nil

theorem Follows.map (hp : Follows p names) {f : α → β} (hnames : ∀ x, names' (f x) = names x) :
    Follows (Reader.andThen p fun x => placed fun _ => f x) names' := by
  refine hp.andThen (fun x => follows_placed fun _ => f x) fun x c y d hok hy => ?_
  obtain ⟨rfl, -⟩ := placed_eq_ok_iff.mp hok
  rwa [hnames] at hy

theorem Follows.branch (hp : Follows p names) (hq : Follows q names) {test : Cursor → Bool}
    (htest : ∀ ⦃c c'⦄, c.Alike c' → test c' = test c) : Follows (branch test p q) names := by
  intro c c' d x h hok hx
  rw [Reader.branch] at hok ⊢
  rw [htest h]
  by_cases hyes : test c = true
  · rw [if_pos hyes] at hok ⊢
    exact hp h hok hx
  · rw [if_neg hyes] at hok ⊢
    exact hq h hok hx

end Together

/-! ## Single tokens -/

/-- A parser that takes the next token if that token has a meaning for it. -/
structure TakesOne (p : Reader α) (f : Token → Option α) : Prop where
  ended : ∀ {previous x d}, p ⟨previous, []⟩ ≠ .ok (x, d)
  next : ∀ {previous token tokens x d}, token.kind ≠ .newline →
    (p ⟨previous, token :: tokens⟩ = .ok (x, d) ↔ f token = some x ∧ d = ⟨some token, tokens⟩)

theorem TakesOne.of_level {p : Reader α} {f : Token → Option α} (hp : TakesOne p f)
    {c c' d : Cursor} {x : α} (h : c.Level c') (hok : p c = .ok (x, d)) :
    ∃ d', p c' = .ok (x, d') ∧ d.Alike d' := by
  cases h with
  | ended _ _ => exact absurd hok hp.ended
  | next hkind hspan _ _ h =>
      obtain ⟨hf, rfl⟩ := (hp.next hkind).mp hok
      exact ⟨_, (hp.next hkind).mpr ⟨hf, rfl⟩, Cursor.alike_some hspan h⟩

theorem TakesOne.guarded {p : Reader α} {f : Token → Option α} (hp : TakesOne p f)
    {names : α → List String} (hbarred : ∀ {token tokens x}, Barred (token :: tokens) →
      f token = some x → ¬ValidNames (names x)) :
    Guarded p names := by
  refine ⟨?_, fun hlevel hok _ => hp.of_level hlevel hok⟩
  rintro ⟨previous, _ | ⟨token, tokens⟩⟩ x d hrest hok
  · exact hrest.elim
  · exact hbarred hrest ((hp.next hrest.kind_ne).mp hok).1

theorem takesOne_token (kind : TokenKind) :
    TakesOne (token kind) fun first => if first.kind = kind then some first else none := by
  constructor
  case ended => exact fun hok => nomatch hok
  case next =>
    intro previous first tokens x d hkind
    rw [token, Cursor.skipNewlines_cons hkind]
    dsimp only
    split
    · simp [eq_comm]
    · simp

theorem guarded_ident : Guarded (token .ident) fun first => [first.text] := by
  refine (takesOne_token .ident).guarded fun hbarred hsome => ?_
  split at hsome
  · next hident =>
      obtain rfl := Option.some.inj hsome
      rcases hbarred with hinvalid | ⟨hopen, -⟩
      · exact nomatch hident.symm.trans hinvalid
      · exact not_validNames_of_unclosed hopen List.mem_cons_self
  · exact nomatch hsome

/-- The relation of a token that is a relation sign. -/
def relationOf? (token : Token) : Option Relation :=
  match token.kind with
  | .le => some .le
  | .ge => some .ge
  | .eq => some .eq
  | _ => none

theorem takesOne_relation : TakesOne relation relationOf? := by
  constructor
  case ended => exact fun hok => nomatch hok
  case next =>
    intro previous first tokens x d hkind
    rw [relation, Cursor.skipNewlines_cons hkind, relationOf?]
    dsimp only
    cases first.kind <;> simp [eq_comm]

theorem guarded_relation : Guarded relation fun _ => [] := by
  refine takesOne_relation.guarded fun hbarred hsome => ?_
  rw [relationOf?] at hsome
  rcases hbarred with hinvalid | ⟨hopen, -⟩
  · rw [hinvalid] at hsome
    exact nomatch hsome
  · rw [hopen.1] at hsome
    exact nomatch hsome

theorem skips_token (kind : TokenKind) : Skips (token kind) := by
  intro c
  rw [token, token, Cursor.skipNewlines_skipNewlines]

theorem skips_relation : Skips relation := by
  intro c
  rw [relation, relation, Cursor.skipNewlines_skipNewlines]

theorem follows_ident : Follows (token .ident) fun first => [first.text] :=
  guarded_ident.alike (skips_token .ident)

theorem follows_relation : Follows relation fun _ => [] :=
  guarded_relation.alike skips_relation

/-! ## Signs and values -/

theorem signsFrom_of_barred {tokens : List Token} (h : Barred tokens) (overNewlines negative : Bool)
    (previous : Option Token) :
    signsFrom overNewlines negative previous tokens = (negative, ⟨previous, tokens⟩) := by
  cases tokens with
  | nil => exact h.elim
  | cons token tokens =>
      have hnewline : token.kind = .newline → overNewlines = false :=
        fun heq => absurd heq h.kind_ne
      rcases h.kind_eq with hkind | hkind <;>
        exact signsFrom_stop (by simp [hkind]) (by simp [hkind]) hnewline _ _ _

theorem exists_signsFrom_newlines {tokens : List Token} (h : ∀ token ∈ tokens, token = newline)
    (overNewlines negative : Bool) {previous : Option Token}
    (hstop : (Cursor.mk previous []).lastStop = 0) :
    ∃ d, signsFrom overNewlines negative previous tokens = (negative, d) ∧
      (∀ token ∈ d.rest, token = newline) ∧ d.lastStop = 0 := by
  induction tokens generalizing previous with
  | nil => exact ⟨_, rfl, h, hstop⟩
  | cons token tokens ih =>
      obtain ⟨rfl, hlater⟩ := List.forall_mem_cons.mp h
      cases overNewlines with
      | false =>
          exact ⟨_, signsFrom_stop TokenKind.noConfusion TokenKind.noConfusion (fun _ => rfl) _ _ _,
            h, hstop⟩
      | true =>
          rw [signsFrom_newline rfl]
          exact ih hlater rfl

/-- Behind signs alike positions are alike, or the first one is barred. -/
theorem signs_of_alike {c c' : Cursor} (h : c.Alike c') (overNewlines : Bool) :
    Barred (signs overNewlines c).2.skipNewlines.rest ∨
      (signs overNewlines c').1 = (signs overNewlines c).1 ∧
        (signs overNewlines c).2.Alike (signs overNewlines c').2 := by
  obtain ⟨previous, tokens⟩ := c
  obtain ⟨previous', tokens'⟩ := c'
  obtain ⟨halike, hprevious, hstop, hstop'⟩ := h
  rw [signs, signs]
  dsimp only at halike hprevious ⊢
  generalize false = negative
  induction halike generalizing previous previous' negative with
  | ended hbreaks =>
      obtain ⟨d, hsigns, hrest, hlast⟩ :=
        exists_signsFrom_newlines hbreaks overNewlines negative hstop'
      rw [hsigns]
      exact .inr ⟨rfl, .ended hrest, fun hne => absurd rfl hne, hstop, hlast⟩
  | @stray token hkind tokens tokens' _ =>
      have hbarred : Barred (token :: tokens) := .inl hkind
      rw [signsFrom_of_barred hbarred, Cursor.skipNewlines_of_barred hbarred]
      exact .inl hbarred
  | @unclosed token token' hopen _ tokens _ hcolon _ =>
      have hbarred : Barred (token :: tokens) := .inr ⟨hopen, hcolon⟩
      rw [signsFrom_of_barred hbarred, Cursor.skipNewlines_of_barred hbarred]
      exact .inl hbarred
  | @line tokens hbarred tokens' =>
      refine .inl ?_
      have hskip := Cursor.skipNewlines_of_barred (c := ⟨some newline, tokens⟩) hbarred
      cases overNewlines with
      | false =>
          rw [signsFrom_stop TokenKind.noConfusion TokenKind.noConfusion (fun _ => rfl),
            Cursor.skipNewlines_newline, hskip]
          exact hbarred
      | true =>
          rw [signsFrom_newline rfl, signsFrom_of_barred hbarred, hskip]
          exact hbarred
  | @cons token hspan tokens tokens' h ih =>
      have hstopToken : token.span.stop = 0 := by rw [hspan]
      have hlater := fun negative => ih (some token) (some token) (fun _ => rfl) hstopToken
        hstopToken negative
      by_cases hplus : token.kind = .plus
      · rw [signsFrom_plus hplus, signsFrom_plus hplus]
        exact hlater negative
      by_cases hminus : token.kind = .minus
      · rw [signsFrom_minus hminus, signsFrom_minus hminus]
        exact hlater (!negative)
      by_cases hover : token.kind = .newline ∧ overNewlines = true
      · obtain ⟨hkind, rfl⟩ := hover
        rw [signsFrom_newline hkind, signsFrom_newline hkind]
        exact hlater negative
      · have hhalt : token.kind = .newline → overNewlines = false := fun hkind =>
          Bool.eq_false_iff.mpr fun hover' => hover ⟨hkind, hover'⟩
        rw [signsFrom_stop hplus hminus hhalt, signsFrom_stop hplus hminus hhalt]
        exact .inr ⟨rfl, .cons hspan h, hprevious, hstop, hstop'⟩

/-- The value of a token that is a numeral or a word for infinity. -/
def valueOf? (negative : Bool) (token : Token) : Option Binary64 :=
  if token.kind = .number then
    match numeral token with
    | .ok value => some (applySign negative value)
    | .error _ => none
  else if isInfinityWord token then some (applySign negative (.infinity false))
  else none

/-- What is read of a value behind its signs. -/
def unsigned (negative : Bool) : Reader Binary64 := fun c =>
  match c.rest with
  | [] => .error (unexpected .number c)
  | token :: tokens =>
    if token.kind = .number then do
      let value ← numeral token
      return (applySign negative value, ⟨some token, tokens⟩)
    else if isInfinityWord token then
      .ok (applySign negative (.infinity false), ⟨some token, tokens⟩)
    else
      .error (unexpected .number c)

theorem value_eq (c : Cursor) :
    value c = unsigned (signs false c.skipNewlines).1 (signs false c.skipNewlines).2 :=
  rfl

theorem unsigned_cons_eq_ok_iff {negative : Bool} {previous : Option Token} {token : Token}
    {tokens : List Token} {x : Binary64} {d : Cursor} :
    unsigned negative ⟨previous, token :: tokens⟩ = .ok (x, d) ↔
      valueOf? negative token = some x ∧ d = ⟨some token, tokens⟩ := by
  rw [unsigned, valueOf?]
  dsimp only
  split
  · cases numeral token with
    | error error => simp [bind, Except.bind]
    | ok value =>
        change Except.ok (applySign negative value, Cursor.mk (some token) tokens) = _ ↔ _
        rw [Except.ok.injEq, Prod.mk.injEq, Option.some.injEq]
        exact and_congr_right fun _ => eq_comm
  · split
    · rw [Except.ok.injEq, Prod.mk.injEq, Option.some.injEq]
      exact and_congr_right fun _ => eq_comm
    · simp

theorem valueOf?_of_barred {token : Token} {tokens : List Token} (h : Barred (token :: tokens))
    (negative : Bool) : valueOf? negative token = none := by
  rcases h with hinvalid | ⟨hopen, -⟩
  · simp [valueOf?, isInfinityWord, hinvalid]
  · have hinf : asciiLower token.text ≠ "inf" := fun heq => hopen.unreserved (by rw [heq]; decide)
    have hinfinity : asciiLower token.text ≠ "infinity" :=
      fun heq => hopen.unreserved (by rw [heq]; decide)
    simp [valueOf?, isInfinityWord, hopen.1, hinf, hinfinity]

theorem kind_ne_of_valueOf? {negative : Bool} {token : Token} {x : Binary64}
    (h : valueOf? negative token = some x) : token.kind ≠ .newline := by
  intro hkind
  simp [valueOf?, isInfinityWord, hkind] at h

theorem not_barred_of_unsigned_eq_ok {negative : Bool} {c d : Cursor} {x : Binary64}
    (hok : unsigned negative c = .ok (x, d)) : ¬Barred c.skipNewlines.rest := by
  obtain ⟨previous, _ | ⟨token, tokens⟩⟩ := c
  · exact nomatch hok
  · obtain ⟨hsome, -⟩ := unsigned_cons_eq_ok_iff.mp hok
    rw [Cursor.skipNewlines_cons (kind_ne_of_valueOf? hsome)]
    exact fun hbarred => nomatch (valueOf?_of_barred hbarred negative).symm.trans hsome

theorem guarded_value : Guarded value fun _ => [] := by
  constructor
  case refuses =>
    intro c x d hbarred hok _
    rw [value_eq, Cursor.skipNewlines_of_barred hbarred, signs, signsFrom_of_barred hbarred] at hok
    refine not_barred_of_unsigned_eq_ok hok ?_
    rwa [Cursor.skipNewlines_of_barred hbarred]
  case follows =>
    intro c c' x d hlevel hok _
    rw [value_eq, hlevel.skipNewlines] at hok
    rw [value_eq, hlevel.skipNewlines']
    have hunbarred := not_barred_of_unsigned_eq_ok hok
    obtain ⟨hsign, halike⟩ := (signs_of_alike hlevel.alike false).resolve_left hunbarred
    rw [hsign]
    generalize (signs false c).1 = negative at hok ⊢
    generalize (signs false c).2 = e at hok hunbarred halike
    generalize (signs false c').2 = e' at halike ⊢
    obtain ⟨previous, _ | ⟨token, tokens⟩⟩ := e
    · cases hok
    obtain ⟨hsome, rfl⟩ := unsigned_cons_eq_ok_iff.mp hok
    have hkind := kind_ne_of_valueOf? hsome
    rw [Cursor.skipNewlines_cons hkind] at hunbarred
    cases (halike.barred_or_level rfl hkind).resolve_left hunbarred with
    | next _ hspan _ _ h =>
        exact ⟨_, unsigned_cons_eq_ok_iff.mpr ⟨hsome, rfl⟩, Cursor.alike_some hspan h⟩

theorem skips_value : Skips value := by
  intro c
  rw [value, value, Cursor.skipNewlines_skipNewlines]

theorem follows_value : Follows value fun _ => [] :=
  guarded_value.alike skips_value

/-! ## Summands -/

/-- The name in a summand, if there is one. -/
def Summand.names : Summand → List String
  | .term written => [written.name]
  | .constant _ => []

theorem operand_refuses {start : Span} {negative : Bool} {c d : Cursor} {x : Summand}
    (hbarred : Barred c.skipNewlines.rest) (hok : operand start negative c = .ok (x, d)) :
    ¬ValidNames x.names := by
  obtain ⟨previous, _ | ⟨token, tokens⟩⟩ := c
  · exact nomatch hok
  by_cases hident : token.kind = .ident
  · rw [Cursor.skipNewlines_cons (by simp [hident])] at hbarred
    rw [operand_variable _ _ _ _ hident] at hok
    obtain ⟨rfl, -⟩ := Prod.mk.inj (Except.ok.inj hok)
    rcases hbarred with hinvalid | ⟨hopen, -⟩
    · exact nomatch hident.symm.trans hinvalid
    · exact not_validNames_of_unclosed hopen List.mem_cons_self
  · have hnumber : token.kind ≠ .number := by
      intro hnumber
      rw [Cursor.skipNewlines_cons (by simp [hnumber])] at hbarred
      rcases Barred.kind_eq hbarred with hkind | hkind <;>
        exact nomatch hnumber.symm.trans hkind
    rw [operand_unexpected start negative (c := ⟨previous, token :: tokens⟩) hnumber hident] at hok
    exact nomatch hok

/-- Behind a number comes the same variable at both positions, or no variable at either. -/
theorem operand_of_number {start : Span} {negative : Bool} {previous : Option Token}
    {token : Token} {tokens tokens' : List Token} {value : Binary64}
    (hkind : token.kind = .number) (hvalue : numeral token = .ok value)
    (hspan : token.span = ⟨0, 0⟩) (h : Token.Alike tokens tokens') {x : Summand} {d : Cursor}
    (hok : operand start negative ⟨previous, token :: tokens⟩ = .ok (x, d))
    (hnames : ValidNames x.names) :
    ∃ d', operand start negative ⟨previous, token :: tokens'⟩ = .ok (x, d') ∧ d.Alike d' := by
  by_cases hnext : (Cursor.mk (some token) tokens).kind = .ident
  · obtain _ | ⟨second, later⟩ := tokens
    · exact nomatch hnext
    have hsecond : second.kind = .ident := hnext
    rw [operand_term _ _ _ _ hkind hvalue hsecond] at hok
    obtain ⟨rfl, rfl⟩ := Prod.mk.inj (Except.ok.inj hok)
    have hpasses : ¬Barred (second :: later) := by
      rintro (hinvalid | ⟨hopen, -⟩)
      · exact nomatch hsecond.symm.trans hinvalid
      · exact not_validNames_of_unclosed hopen List.mem_cons_self hnames
    have hne : second.kind ≠ .newline := by simp [hsecond]
    cases ((Cursor.alike_some hspan h).barred_or_level rfl hne).resolve_left hpasses with
    | next _ hspanSecond _ _ hlater =>
        exact ⟨_, operand_term _ _ _ _ hkind hvalue hsecond, Cursor.alike_some hspanSecond hlater⟩
  · have hnext' : (Cursor.mk (some token) tokens').kind ≠ .ident :=
      mt (h.kind_eq_iff _ _ (by simp [Blind])).mpr hnext
    rw [operand_constant _ _ _ _ hkind hvalue hnext] at hok
    obtain ⟨rfl, rfl⟩ := Prod.mk.inj (Except.ok.inj hok)
    exact ⟨_, operand_constant _ _ _ _ hkind hvalue hnext', Cursor.alike_some hspan h⟩

theorem operand_of_level {start : Span} {negative : Bool} {c c' d : Cursor} {x : Summand}
    (h : c.Level c') (hok : operand start negative c = .ok (x, d)) (hnames : ValidNames x.names) :
    ∃ d', operand start negative c' = .ok (x, d') ∧ d.Alike d' := by
  cases h with
  | ended _ _ => exact nomatch hok
  | @next previous token tokens tokens' hkind hspan _ _ h =>
      by_cases hident : token.kind = .ident
      · rw [operand_variable _ _ _ _ hident] at hok ⊢
        obtain ⟨rfl, rfl⟩ := Prod.mk.inj (Except.ok.inj hok)
        exact ⟨_, rfl, Cursor.alike_some hspan h⟩
      by_cases hnumber : token.kind = .number
      · cases hvalue : numeral token with
        | error error =>
            rw [operand_invalid _ _ _ _ hnumber hvalue] at hok
            exact nomatch hok
        | ok value => exact operand_of_number hnumber hvalue hspan h hok hnames
      · rw [operand_unexpected start negative (c := ⟨previous, token :: tokens⟩) hnumber hident]
          at hok
        exact nomatch hok

theorem follows_operand (start : Span) (negative : Bool) :
    Follows (operand start negative) Summand.names := by
  intro c c' d x h hok hnames
  obtain ⟨previous, _ | ⟨token, tokens⟩⟩ := c
  · exact nomatch hok
  by_cases hkind : token.kind = .newline
  · rw [operand_unexpected start negative (c := ⟨previous, token :: tokens⟩)
      (by simp [hkind]) (by simp [hkind])] at hok
    exact nomatch hok
  · refine operand_of_level ((h.barred_or_level rfl hkind).resolve_left fun hbarred => ?_) hok
      hnames
    refine operand_refuses ?_ hok hnames
    rwa [Cursor.skipNewlines_cons hkind]

theorem kind_of_barred {c : Cursor} (h : Barred c.rest) : c.kind = .invalid ∨ c.kind = .ident := by
  obtain ⟨previous, _ | ⟨token, tokens⟩⟩ := c
  · exact h.elim
  · exact h.kind_eq

theorem atSign_of_barred {c : Cursor} (h : Barred c.rest) : c.atSign = false := by
  rcases kind_of_barred h with hkind | hkind <;> rw [Cursor.atSign, hkind] <;> rfl

theorem guarded_summand (mustSign : Bool) : Guarded (summand mustSign) Summand.names := by
  constructor
  case refuses =>
    intro c x d hbarred hok
    rw [summand, atSign_of_barred hbarred] at hok
    have hskip := Cursor.skipNewlines_of_barred hbarred
    cases mustSign with
    | true => cases hok
    | false => exact operand_refuses (hskip.symm ▸ hbarred) hok
  case follows =>
    intro c c' x d hlevel hok hnames
    have hsign : c'.atSign = c.atSign := by rw [Cursor.atSign, Cursor.atSign, hlevel.kind]
    rw [summand, hsign, hlevel.span]
    rw [summand] at hok
    by_cases hmust : (mustSign && !c.atSign) = true
    · rw [if_pos hmust] at hok
      cases hok
    rw [if_neg hmust] at hok ⊢
    by_cases hat : c.atSign = true
    · rw [if_pos hat] at hok ⊢
      obtain ⟨heq, halike⟩ := (signs_of_alike hlevel.alike true).resolve_left fun hbarred =>
        operand_refuses hbarred hok hnames
      rw [heq]
      exact follows_operand _ _ halike hok hnames
    · rw [if_neg hat] at hok ⊢
      exact operand_of_level hlevel hok hnames

/-! ## Repetition -/

/-- A test that gives the same answer at level positions, and no to what is barred. -/
structure Steady (stop : Cursor → Bool) : Prop where
  barred : ∀ {c}, Barred c.rest → stop c = false
  level : ∀ {c c'}, c.Level c' → stop c' = stop c

theorem manyUntil_of_alike {stop : Cursor → Bool} {item : Reader α} {h : Shortens item}
    {names : α → List String} (hstop : Steady stop) (hitem : Guarded item names) :
    ∀ (c c' d : Cursor) (xs : List α), c.Alike c' → manyUntil stop item h c = .ok (xs, d) →
      ValidNames (xs.flatMap names) →
      ∃ d', manyUntil stop item h c' = .ok (xs, d') ∧ d.Alike d' := by
  intro c
  fun_induction manyUntil stop item h c with
  | case1 c c₁ hstopped =>
      intro c' d xs halike hok hnames
      obtain ⟨rfl, rfl⟩ := Prod.mk.inj (Except.ok.inj hok)
      rcases halike.skipNewlines with hbarred | hlevel
      · exact absurd ((hstop.barred hbarred).symm.trans hstopped) Bool.false_ne_true
      · exact ⟨_, manyUntil_done ((hstop.level hlevel).trans hstopped), hlevel.alike⟩
  | case2 c c₁ hstopped error herror =>
      intro c' d xs _ hok
      cases hok
  | case3 c c₁ hstopped x next hfirst error hrest ih =>
      intro c' d xs _ hok
      cases hok
  | case4 c c₁ hstopped x next hfirst later last hrest ih =>
      intro c' d xs halike hok hnames
      obtain ⟨rfl, rfl⟩ := Prod.mk.inj (Except.ok.inj hok)
      rw [List.flatMap_cons] at hnames
      rcases halike.skipNewlines with hbarred | hlevel
      · exact absurd hnames.left (hitem.refuses hbarred hfirst)
      · obtain ⟨next', hfirst', hnext⟩ := hitem.follows hlevel hfirst hnames.left
        obtain ⟨last', hrest', hlast⟩ := ih _ _ _ hnext hrest hnames.right
        have hstopped' := (hstop.level hlevel).trans (Bool.eq_false_iff.mpr hstopped)
        exact ⟨last', manyUntil_step hstopped' hfirst' hrest', hlast⟩

theorem follows_manyUntil {stop : Cursor → Bool} {item : Reader α} {h : Shortens item}
    {names : α → List String} (hstop : Steady stop) (hitem : Guarded item names) :
    Follows (manyUntil stop item h) (List.flatMap names) :=
  manyUntil_of_alike hstop hitem

/-! ## Expressions -/

def exprNames (written : WrittenExpr) : List String :=
  written.terms.map WrittenTerm.name

theorem exprNames_exprOf (summands : List Summand) :
    exprNames (exprOf summands) = summands.flatMap Summand.names := by
  induction summands with
  | nil => rfl
  | cons summand summands ih =>
      rw [List.flatMap_cons, ← ih]
      cases summand <;> rfl

theorem atRelation_of_barred {c : Cursor} (h : Barred c.rest) : c.atRelation = false := by
  rcases kind_of_barred h with hkind | hkind <;> rw [Cursor.atRelation, hkind] <;> rfl

theorem steady_atBlockEnd : Steady Cursor.atBlockEnd :=
  ⟨Cursor.atBlockEnd_of_barred, Cursor.Level.atBlockEnd⟩

theorem steady_atExprEnd : Steady atExprEnd := by
  constructor
  case barred =>
    intro c h
    rw [atExprEnd, atRelation_of_barred h, Cursor.atBlockEnd_of_barred h]
    rfl
  case level =>
    intro c c' h
    rw [atExprEnd, atExprEnd, Cursor.atRelation, Cursor.atRelation, h.kind, h.atBlockEnd]

theorem expr_eq_ok_iff {c d : Cursor} {written : WrittenExpr}
    (hmore : atExprEnd c.skipNewlines = false) :
    expr c = .ok (written, d) ↔ ∃ first next later,
      summand false c.skipNewlines = .ok (first, next) ∧
        manyUntil atExprEnd (summand true) (summand_shortens true) next = .ok (later, d) ∧
        exprOf (first :: later) = written := by
  constructor
  · intro hok
    rw [expr] at hok
    dsimp only at hok
    rw [hmore, if_neg Bool.false_ne_true] at hok
    obtain ⟨⟨first, next⟩, hfirst, hok⟩ := bind_eq_ok_iff.mp hok
    obtain ⟨⟨later, last⟩, hlater, hok⟩ := bind_eq_ok_iff.mp hok
    obtain ⟨rfl, rfl⟩ := Prod.mk.inj (Except.ok.inj hok)
    exact ⟨first, next, later, hfirst, hlater, rfl⟩
  · rintro ⟨first, next, later, hfirst, hlater, rfl⟩
    exact expr_step hmore hfirst hlater

theorem skips_expr : Skips expr :=
  expr_skipNewlines

theorem guarded_expr : Guarded expr exprNames := by
  constructor
  case refuses =>
    intro c written d hbarred hok hnames
    have hskip := Cursor.skipNewlines_of_barred hbarred
    have hmore : atExprEnd c.skipNewlines = false := by rw [hskip, steady_atExprEnd.barred hbarred]
    obtain ⟨first, next, later, hfirst, -, rfl⟩ := (expr_eq_ok_iff hmore).mp hok
    rw [hskip] at hfirst
    rw [exprNames_exprOf, List.flatMap_cons] at hnames
    exact (guarded_summand false).refuses hbarred hfirst hnames.left
  case follows =>
    intro c c' written d hlevel hok hnames
    by_cases hend : atExprEnd c = true
    · have hend' : atExprEnd c' = true := (steady_atExprEnd.level hlevel).trans hend
      rw [expr, hlevel.skipNewlines, if_pos hend] at hok
      obtain ⟨rfl, rfl⟩ := Prod.mk.inj (Except.ok.inj hok)
      rw [expr, hlevel.skipNewlines', if_pos hend']
      exact ⟨_, rfl, hlevel.alike⟩
    · have hmore : atExprEnd c.skipNewlines = false := by
        rw [hlevel.skipNewlines, Bool.eq_false_iff.mpr hend]
      have hmore' : atExprEnd c'.skipNewlines = false := by
        rw [hlevel.skipNewlines', steady_atExprEnd.level hlevel, Bool.eq_false_iff.mpr hend]
      obtain ⟨first, next, later, hfirst, hlater, rfl⟩ := (expr_eq_ok_iff hmore).mp hok
      rw [hlevel.skipNewlines] at hfirst
      rw [exprNames_exprOf, List.flatMap_cons] at hnames
      obtain ⟨next', hfirst', hnext⟩ := (guarded_summand false).follows hlevel hfirst hnames.left
      obtain ⟨d', hlater', hd⟩ :=
        follows_manyUntil steady_atExprEnd (guarded_summand true) hnext hlater hnames.right
      rw [← hlevel.skipNewlines'] at hfirst'
      exact ⟨d', (expr_eq_ok_iff hmore').mpr ⟨first, next', later, hfirst', hlater', rfl⟩, hd⟩

theorem follows_expr : Follows expr exprNames :=
  guarded_expr.alike skips_expr

end Reader

end LinearProgram
