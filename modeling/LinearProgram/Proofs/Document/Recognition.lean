import LinearProgram.Proofs.Document.Grammar
import LinearProgram.Proofs.Document.GuardedSections

/-!
# Parsers and forms

A parser recognises a form at a position if the values that it can find there, places
apart, are those that the form derives there, and it ends where they end.  Repetition
recognises a list if what is repeated recognises the items.  From the parsers of single
tokens follow those of values, terms and expressions.  The main statements are
`recognises_manyUntil` and `recognises_expr`.
-/

namespace LinearProgram

namespace Grammar

open Reader

/-- From a position a parser finds what a form derives there, `f` taking the places off. -/
def Recognises (p : Reader α) (f : α → β) (form : Form β) (c : Cursor) : Prop :=
  ∀ y d, (∃ x, p c = .ok (x, d) ∧ f x = y) ↔ form c y d

/-! ## Repetition -/

section Repetition

variable {stop : Cursor → Bool} {stops : Cursor → Prop} {item : Reader α} {h : Shortens item}
  {f : α → β} {form : Form β}

theorem many_of_manyUntil (hstops : ∀ {c}, stops c ↔ stop c = true)
    (hitem : ∀ {c}, ¬stops c → Recognises item f form c) :
    ∀ (c d : Cursor) (xs : List α), manyUntil stop item h c = .ok (xs, d) →
      Many stops form c (xs.map f) d := by
  intro c
  fun_induction manyUntil stop item h c with
  | case1 c c₁ hstopped =>
      intro d xs hok
      obtain ⟨rfl, rfl⟩ := Prod.mk.inj (Except.ok.inj hok)
      exact .done (breaks_skipNewlines c) (hstops.mpr hstopped)
  | case2 c c₁ hstopped error herror =>
      intro d xs hok
      cases hok
  | case3 c c₁ hstopped x next hfirst error hrest ih =>
      intro d xs hok
      cases hok
  | case4 c c₁ hstopped x next hfirst later last hrest ih =>
      intro d xs hok
      obtain ⟨rfl, rfl⟩ := Prod.mk.inj (Except.ok.inj hok)
      have hgoes : ¬stops c₁ := mt hstops.mp hstopped
      exact .step (breaks_skipNewlines c) hgoes ((hitem hgoes _ _).mp ⟨x, hfirst, rfl⟩)
        (ih _ _ hrest)

theorem exists_manyUntil_of_many (hstops : ∀ {c}, stops c ↔ stop c = true)
    (hitem : ∀ {c}, ¬stops c → Recognises item f form c) {c d : Cursor} {ys : List β}
    (hmany : Many stops form c ys d) :
    ∃ xs, manyUntil stop item h c = .ok (xs, d) ∧ xs.map f = ys := by
  induction hmany with
  | done hbreaks hstopped =>
      obtain rfl := breaks_iff.mp hbreaks
      exact ⟨[], manyUntil_done (hstops.mp hstopped), rfl⟩
  | step hbreaks hgoes hfirst hlater ih =>
      obtain rfl := breaks_iff.mp hbreaks
      obtain ⟨x, hx, rfl⟩ := (hitem hgoes _ _).mpr hfirst
      obtain ⟨xs, hxs, rfl⟩ := ih
      exact ⟨x :: xs, manyUntil_step (Bool.eq_false_iff.mpr (mt hstops.mpr hgoes)) hx hxs, rfl⟩

theorem recognises_manyUntil (hstops : ∀ {c}, stops c ↔ stop c = true)
    (hitem : ∀ {c}, ¬stops c → Recognises item f form c) (c : Cursor) :
    Recognises (manyUntil stop item h) (List.map f) (Many stops form) c := by
  refine fun ys d => ⟨?_, exists_manyUntil_of_many hstops hitem⟩
  rintro ⟨xs, hok, rfl⟩
  exact many_of_manyUntil hstops hitem _ _ _ hok

end Repetition

/-! ## Single tokens -/

theorem takesOne_eq_ok_iff {p : Reader α} {g : Token → Option α} (hp : TakesOne p g)
    (hskips : Skips p) {c d : Cursor} {x : α} :
    p c = .ok (x, d) ↔ ∃ previous token tokens, Breaks c ⟨previous, token :: tokens⟩ ∧
      g token = some x ∧ d = ⟨some token, tokens⟩ := by
  have hkind := c.kind_skipNewlines_ne
  rw [← hskips]
  simp only [breaks_iff]
  generalize c.skipNewlines = e at hkind ⊢
  obtain ⟨previous, _ | ⟨token, tokens⟩⟩ := e
  · refine ⟨fun hok => absurd hok hp.ended, ?_⟩
    rintro ⟨_, _, _, heq, -⟩
    cases heq
  · refine (hp.next hkind).trans ⟨fun hboth => ⟨previous, token, tokens, rfl, hboth⟩, ?_⟩
    rintro ⟨_, _, _, heq, hsome, hd⟩
    cases heq
    exact ⟨hsome, hd⟩

theorem recognises_name (c : Cursor) : Recognises (token .ident) Token.text NameAt c := by
  intro name d
  simp only [takesOne_eq_ok_iff (takesOne_token .ident) (skips_token .ident)]
  constructor
  · rintro ⟨found, ⟨previous, first, tokens, hbreaks, hsome, rfl⟩, rfl⟩
    split at hsome
    · next hident =>
        obtain rfl := Option.some.inj hsome
        exact .name hbreaks hident
    · cases hsome
  · rintro ⟨hbreaks, hident⟩
    exact ⟨_, ⟨_, _, _, hbreaks, if_pos hident, rfl⟩, rfl⟩

theorem relationOf?_eq_some_iff {token : Token} {relation : Relation} :
    relationOf? token = some relation ↔ token.kind = relation.sign := by
  rw [relationOf?]
  cases token.kind <;> cases relation <;> simp [Relation.sign]

theorem relation_eq_ok_iff {c d : Cursor} {found : Relation} :
    relation c = .ok (found, d) ↔ RelationAt c found d := by
  rw [takesOne_eq_ok_iff takesOne_relation skips_relation]
  constructor
  · rintro ⟨previous, first, tokens, hbreaks, hsome, rfl⟩
    exact .relation hbreaks (relationOf?_eq_some_iff.mp hsome)
  · rintro ⟨hbreaks, hkind⟩
    exact ⟨_, _, _, hbreaks, relationOf?_eq_some_iff.mpr hkind, rfl⟩

/-! ## Signs -/

/-- A gap behind signs, which the reading of signs passes over. -/
structure Passes (overNewlines : Bool) (gap : Cursor → Cursor → Prop) : Prop where
  same : ∀ {c d}, gap c d → ∀ negative, signsFrom overNewlines negative c.previous c.rest =
    signsFrom overNewlines negative d.previous d.rest
  reaches : ∀ c, ∃ d, gap c d ∧ d.rest.length ≤ c.rest.length ∧
    (d.kind = .newline → overNewlines = false)

theorem passes_breaks : Passes true Breaks := by
  constructor
  case same =>
    intro c d h negative
    induction h with
    | stay hkind => rfl
    | line hkind hlater ih => exact (signsFrom_newline hkind _ _ _).trans ih
  case reaches =>
    intro c
    exact ⟨c.skipNewlines, breaks_skipNewlines c, c.length_skipNewlines_le,
      fun hkind => absurd hkind c.kind_skipNewlines_ne⟩

theorem passes_eq : Passes false Eq := by
  constructor
  case same =>
    rintro c d rfl negative
    rfl
  case reaches => exact fun c => ⟨c, rfl, Nat.le_refl _, fun _ => rfl⟩

/-- A position at which signs end. -/
structure HaltsSigns (overNewlines : Bool) (c : Cursor) : Prop where
  plus : c.kind ≠ .plus
  minus : c.kind ≠ .minus
  newline : c.kind = .newline → overNewlines = false

section Signs

variable {overNewlines : Bool} {gap : Cursor → Cursor → Prop}

theorem signsFrom_of_signsAt (hgap : Passes overNewlines gap) {c d : Cursor} {negative : Bool}
    (h : SignsAt gap c negative d) (before : Bool) :
    signsFrom overNewlines before c.previous c.rest =
      signsFrom overNewlines (before.xor negative) d.previous d.rest := by
  induction h generalizing before with
  | none => rw [Bool.xor_false]
  | plus hkind hpass hlater ih => rw [signsFrom_plus hkind, ← ih, ← hgap.same hpass]
  | @minus previous token tokens d e negative hkind hpass hlater ih =>
      have hflip : before.xor (!negative) = (!before).xor negative := by simp
      rw [signsFrom_minus hkind, hflip, ← ih, ← hgap.same hpass]

theorem signs_eq_of_signsAt (hgap : Passes overNewlines gap) {c d : Cursor} {negative : Bool}
    (h : SignsAt gap c negative d) (hhalts : HaltsSigns overNewlines d) :
    signs overNewlines c = (negative, d) := by
  rw [signs, signsFrom_of_signsAt hgap h, Bool.false_xor]
  obtain ⟨previous, _ | ⟨token, tokens⟩⟩ := d
  · rfl
  · exact signsFrom_stop hhalts.plus hhalts.minus hhalts.newline _ _ _

/-- Signs can be read up to a position at which they end. -/
theorem exists_signsAt (hgap : Passes overNewlines gap) (c : Cursor)
    (hstart : c.kind = .newline → overNewlines = false) :
    ∃ negative d, SignsAt gap c negative d ∧ HaltsSigns overNewlines d := by
  -- A gap takes any number of tokens, so the induction is on how many are left.
  induction hlength : c.rest.length using Nat.strong_induction_on generalizing c with
  | _ n ih =>
      by_cases hsign : c.kind = .plus ∨ c.kind = .minus
      · obtain ⟨previous, _ | ⟨token, tokens⟩⟩ := c
        · rcases hsign with hkind | hkind <;> cases hkind
        obtain ⟨d, hpass, hle, hnewline⟩ := hgap.reaches ⟨some token, tokens⟩
        have hlt : d.rest.length < n := hlength ▸ Nat.lt_succ_of_le hle
        obtain ⟨negative, e, hsigns, hhalts⟩ := ih _ hlt d hnewline rfl
        rcases hsign with hplus | hminus
        · exact ⟨negative, e, .plus hplus hpass hsigns, hhalts⟩
        · exact ⟨!negative, e, .minus hminus hpass hsigns, hhalts⟩
      · obtain ⟨hplus, hminus⟩ := not_or.mp hsign
        exact ⟨false, c, .none, hplus, hminus, hstart⟩

end Signs

/-! ## Values -/

theorem numeral_eq_ok_iff {token : Token} {value : Binary64} :
    numeral token = .ok value ↔ Binary64.ofNumeral? token.text.toList = some value := by
  rw [numeral]
  cases Binary64.ofNumeral? token.text.toList <;> simp

theorem IsNumber.numeral_eq {token : Token} {value : Binary64} (h : IsNumber token value) :
    numeral token = .ok value :=
  numeral_eq_ok_iff.mpr h.value

theorem kind_of_isInfinityWord {token : Token} (h : isInfinityWord token = true) :
    token.kind = .ident := by
  rw [isInfinityWord, Bool.and_eq_true, decide_eq_true_eq] at h
  exact h.1

theorem valueOf?_eq_some_iff {negative : Bool} {token : Token} {x : Binary64} :
    valueOf? negative token = some x ↔
      ∃ value, Denotes token value ∧ applySign negative value = x := by
  rw [valueOf?]
  constructor
  · intro h
    split at h
    · next hkind =>
        split at h
        · next value hvalue =>
            exact ⟨value, .number ⟨hkind, numeral_eq_ok_iff.mp hvalue⟩, Option.some.inj h⟩
        · cases h
    · split at h
      · next hword => exact ⟨_, .infinity hword, Option.some.inj h⟩
      · cases h
  · rintro ⟨value, hdenotes, rfl⟩
    cases hdenotes with
    | number hnumber => rw [if_pos hnumber.kind, hnumber.numeral_eq]
    | infinity hword =>
        rw [if_neg (by simp [kind_of_isInfinityWord hword]), if_pos hword]

theorem Denotes.halts {token : Token} {value : Binary64} (h : Denotes token value)
    (overNewlines : Bool) (previous : Option Token) (tokens : List Token) :
    HaltsSigns overNewlines ⟨previous, token :: tokens⟩ := by
  have hkind : token.kind = .number ∨ token.kind = .ident := by
    cases h with
    | number hnumber => exact .inl hnumber.kind
    | infinity hword => exact .inr (kind_of_isInfinityWord hword)
  rcases hkind with hkind | hkind <;> constructor <;> simp [hkind]

theorem value_eq_ok_iff {c d : Cursor} {x : Binary64} : value c = .ok (x, d) ↔ ValueAt c x d := by
  rw [value_eq]
  constructor
  · intro hok
    obtain ⟨negative, e, hsigns, hhalts⟩ := exists_signsAt passes_eq c.skipNewlines fun _ => rfl
    rw [signs_eq_of_signsAt passes_eq hsigns hhalts] at hok
    obtain ⟨previous, _ | ⟨token, tokens⟩⟩ := e
    · cases hok
    obtain ⟨hsome, rfl⟩ := unsigned_cons_eq_ok_iff.mp hok
    obtain ⟨number, hdenotes, rfl⟩ := valueOf?_eq_some_iff.mp hsome
    exact .value (breaks_skipNewlines c) hsigns hdenotes
  · rintro ⟨hbreaks, hsigns, hdenotes⟩
    obtain rfl := breaks_iff.mp hbreaks
    rw [signs_eq_of_signsAt passes_eq hsigns (hdenotes.halts _ _ _)]
    exact unsigned_cons_eq_ok_iff.mpr ⟨valueOf?_eq_some_iff.mpr ⟨_, hdenotes, rfl⟩, rfl⟩

/-! ## Terms and expressions -/

theorem operandAt_of_operand {start : Span} {negative : Bool} {c d : Cursor} {found : Summand}
    (hok : operand start negative c = .ok (found, d)) : OperandAt negative c found.bare d := by
  by_cases hnumber : c.kind = .number
  · obtain ⟨previous, _ | ⟨first, tokens⟩⟩ := c
    · cases hnumber
    cases hvalue : numeral first with
    | error error =>
        rw [operand_invalid _ _ _ _ hnumber hvalue] at hok
        cases hok
    | ok number =>
        have hfirst : IsNumber first number := ⟨hnumber, numeral_eq_ok_iff.mp hvalue⟩
        by_cases hnext : (Cursor.mk (some first) tokens).kind = .ident
        · obtain _ | ⟨second, later⟩ := tokens
          · cases hnext
          rw [operand_term _ _ _ _ hnumber hvalue hnext] at hok
          obtain ⟨rfl, rfl⟩ := Prod.mk.inj (Except.ok.inj hok)
          exact .scaled hfirst hnext
        · rw [operand_constant _ _ _ _ hnumber hvalue hnext] at hok
          obtain ⟨rfl, rfl⟩ := Prod.mk.inj (Except.ok.inj hok)
          exact .lone hfirst hnext
  by_cases hident : c.kind = .ident
  · obtain ⟨previous, _ | ⟨first, tokens⟩⟩ := c
    · cases hident
    rw [operand_variable _ _ _ _ hident] at hok
    obtain ⟨rfl, rfl⟩ := Prod.mk.inj (Except.ok.inj hok)
    exact .plain hident
  · rw [operand_unexpected _ _ hnumber hident] at hok
    cases hok

theorem recognises_operand (start : Span) (negative : Bool) (c : Cursor) :
    Recognises (operand start negative) Summand.bare (OperandAt negative) c := by
  intro y d
  constructor
  · rintro ⟨found, hok, rfl⟩
    exact operandAt_of_operand hok
  · intro h
    cases h with
    | scaled hnumber hname =>
        exact ⟨_, operand_term _ _ _ _ hnumber.kind hnumber.numeral_eq hname, rfl⟩
    | lone hnumber hlone =>
        exact ⟨_, operand_constant _ _ _ _ hnumber.kind hnumber.numeral_eq hlone, rfl⟩
    | plain hname => exact ⟨_, operand_variable _ _ _ _ hname, rfl⟩

theorem OperandAt.halts {negative : Bool} {c d : Cursor} {summand : Summand}
    (h : OperandAt negative c summand d) : HaltsSigns true c := by
  have hkind : c.kind = .number ∨ c.kind = .ident := by
    cases h with
    | scaled hnumber hname => exact .inl hnumber.kind
    | lone hnumber hlone => exact .inl hnumber.kind
    | plain hname => exact .inr hname
  rcases hkind with hkind | hkind <;> constructor <;> simp [hkind]

theorem summand_signed_eq {c : Cursor} (hsign : c.atSign = true) (mustSign : Bool) :
    summand mustSign c = operand c.span (signs true c).1 (signs true c).2 := by
  rw [summand, hsign, Bool.not_true, Bool.and_false, if_neg Bool.false_ne_true, if_pos rfl]

theorem summand_unsigned_eq {c : Cursor} (hsign : c.atSign = false) (mustSign : Bool) :
    summand mustSign c =
      if mustSign then .error (unexpected .sign c) else operand c.span false c := by
  rw [summand, hsign]
  cases mustSign <;> rfl

theorem SignsAt.eq_of_not_atSign {gap : Cursor → Cursor → Prop} {c d : Cursor} {negative : Bool}
    (h : SignsAt gap c negative d) (hsign : ¬AtSign c) : negative = false ∧ d = c := by
  cases h with
  | none => exact ⟨rfl, rfl⟩
  | plus hkind _ _ => exact absurd (.inl hkind) hsign
  | minus hkind _ _ => exact absurd (.inr hkind) hsign

theorem recognises_summand (mustSign : Bool) (c : Cursor) :
    Recognises (summand mustSign) Summand.bare (TermAt mustSign) c := by
  intro y d
  by_cases hsign : c.atSign = true
  · have hat := atSign_iff.mpr hsign
    have hstart : c.kind = .newline → true = false := by
      intro hnewline
      rcases hat with hkind | hkind <;> cases hnewline.symm.trans hkind
    rw [summand_signed_eq hsign]
    constructor
    · intro hfound
      obtain ⟨negative, e, hsigns, hhalts⟩ := exists_signsAt passes_breaks c hstart
      rw [signs_eq_of_signsAt passes_breaks hsigns hhalts] at hfound
      exact .term (fun _ => hat) hsigns ((recognises_operand _ _ _ _ _).mp hfound)
    · rintro ⟨-, hsigns, hoperand⟩
      rw [signs_eq_of_signsAt passes_breaks hsigns hoperand.halts]
      exact (recognises_operand _ _ _ _ _).mpr hoperand
  · -- Where no sign stands, only a term that needs none is read and derived.
    have hnot : ¬AtSign c := mt atSign_iff.mp hsign
    rw [summand_unsigned_eq (Bool.eq_false_iff.mpr hsign)]
    constructor
    · rintro ⟨found, hok, rfl⟩
      cases mustSign with
      | true => cases hok
      | false =>
          exact .term (fun hmust => Bool.noConfusion hmust) .none (operandAt_of_operand hok)
    · rintro ⟨hmust, hsigns, hoperand⟩
      obtain ⟨rfl, rfl⟩ := hsigns.eq_of_not_atSign hnot
      rw [if_neg fun hyes => hnot (hmust hyes)]
      exact (recognises_operand _ _ _ _ _).mpr hoperand

theorem recognises_expr (c : Cursor) : Recognises expr WrittenExpr.bare ExprAt c := by
  intro y d
  have hlater (e : Cursor) :
      Recognises (manyUntil atExprEnd (summand true) (summand_shortens true))
        (List.map Summand.bare) (Many StopsExpr (TermAt true)) e :=
    recognises_manyUntil stopsExpr_iff (fun _ => recognises_summand true _) e
  by_cases hstop : atExprEnd c.skipNewlines = true
  · have hstops := stopsExpr_iff.mpr hstop
    have hexpr : expr c = .ok (exprOf [], c.skipNewlines) := by
      rw [expr]
      exact if_pos hstop
    rw [hexpr]
    constructor
    · rintro ⟨x, hok, rfl⟩
      obtain ⟨rfl, rfl⟩ := Prod.mk.inj (Except.ok.inj hok)
      exact .empty (breaks_skipNewlines c) hstops
    · rintro (⟨hbreaks, -⟩ | ⟨hbreaks, hgoes, -, -⟩)
      · obtain rfl := breaks_iff.mp hbreaks
        exact ⟨_, rfl, rfl⟩
      · obtain rfl := breaks_iff.mp hbreaks
        exact absurd hstops hgoes
  · have hgoes : ¬StopsExpr c.skipNewlines := mt stopsExpr_iff.mp hstop
    simp only [expr_eq_ok_iff (Bool.eq_false_iff.mpr hstop)]
    constructor
    · rintro ⟨x, ⟨first, next, later, hfirst, hmore, rfl⟩, rfl⟩
      rw [← exprOf_bare]
      exact .terms (breaks_skipNewlines c) hgoes
        ((recognises_summand _ _ _ _).mp ⟨first, hfirst, rfl⟩)
        ((hlater _ _ _).mp ⟨later, hmore, rfl⟩)
    · rintro (⟨hbreaks, hstops⟩ | ⟨hbreaks, -, hterm, hterms⟩)
      · obtain rfl := breaks_iff.mp hbreaks
        exact absurd hstops hgoes
      · obtain rfl := breaks_iff.mp hbreaks
        obtain ⟨first, hfirst, rfl⟩ := (recognises_summand _ _ _ _).mpr hterm
        obtain ⟨later, hmore, rfl⟩ := (hlater _ _ _).mpr hterms
        exact ⟨_, ⟨first, _, later, hfirst, hmore, rfl⟩, (exprOf_bare (first :: later)).symm⟩

end Grammar

end LinearProgram
