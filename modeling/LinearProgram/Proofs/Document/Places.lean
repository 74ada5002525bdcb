import LinearProgram.Proofs.Document.Runs
import LinearProgram.Proofs.Token.Along
import Mathlib.Data.List.Flatten

/-!
# Places in a document

The parser gives terms, rows, bound statements and the objective the spans of what they are
read from.  These spans nest as the document does.  Those of rows and of bound statements
cover the tokens that the grammar derives them from, come in order, and do not overlap each
other or the objective; those of terms lie in order in the span of their expression.  The
main statement is `Document.wellPlaced_of_parse`.
-/

namespace LinearProgram

open Cursor (Reaches)

theorem Token.InOrder.of_reaches {c d : Cursor} (h : Token.InOrder c.rest)
    (hreaches : c.Reaches d) : Token.InOrder d.rest :=
  h.sublist hreaches.rest_suffix.sublist

theorem Token.InOrder.of_reads {c d : Cursor} {run : List Token} (h : Token.InOrder c.rest)
    (hreads : c.Reads run d) : Token.InOrder run := by
  rw [hreads.rest] at h
  exact h.sublist (List.sublist_append_left run d.rest)

namespace Cursor

/-- The tokens between two positions have some spans along them. -/
def Lays (c : Cursor) (spans : List Span) (d : Cursor) : Prop :=
  ∃ run, c.Reads run d ∧ Along run spans

variable {c d e : Cursor} {spans spans' : List Span}

theorem Reaches.lays (h : c.Reaches d) : c.Lays [] d := by
  obtain ⟨run, hrun⟩ := h
  exact ⟨run, hrun, .done run⟩

theorem Lays.reaches (h : c.Lays spans d) : c.Reaches d := by
  obtain ⟨run, hrun, -⟩ := h
  exact ⟨run, hrun⟩

theorem Lays.trans (h : c.Lays spans d) (h' : d.Lays spans' e) : c.Lays (spans ++ spans') e := by
  obtain ⟨run, hrun, halong⟩ := h
  obtain ⟨run', hrun', halong'⟩ := h'
  exact ⟨run ++ run', hrun.trans hrun', halong.append halong'⟩

/-- What is read from the next token on covers what is read up to the last one. -/
theorem Reads.covers {run : List Token} (h : c.Reads run d) (hne : run ≠ []) :
    (Span.mk c.span.start d.lastStop).Covers run := by
  obtain ⟨first, hfirst, hspan⟩ := h.exists_head hne
  obtain ⟨last, hlast, hstop⟩ := h.exists_last hne
  exact ⟨⟨first, hfirst, by rw [hspan]⟩, ⟨last, hlast, hstop⟩⟩

end Cursor

open Cursor (Lays)

namespace Reader

/-- The spans of the terms in a part of an expression. -/
def Summand.spans : Summand → List Span
  | .term written => [written.span]
  | .constant _ => []

/-- The spans of the rows or bound statements in a section. -/
def Part.spans : Part → List Span
  | .rows listed => listed.map Row.span
  | .bounds listed => listed.map BoundStatement.span
  | .generals _ => []
  | .binaries _ => []

section Layout

variable {c d : Cursor}

theorem lays_manyUntil {stop : Cursor → Bool} {item : Reader α} {h : Shortens item}
    {spans : α → List Span}
    (hitem : ∀ ⦃c x d⦄, stop c = false → Token.InOrder c.rest → item c = .ok (x, d) →
      c.Lays (spans x) d) :
    ∀ (c d : Cursor) (xs : List α), Token.InOrder c.rest →
      manyUntil stop item h c = .ok (xs, d) → c.Lays (xs.flatMap spans) d := by
  intro c
  fun_induction manyUntil stop item h c with
  | case1 c c₁ hstop =>
      intro d xs _ hok
      obtain ⟨rfl, rfl⟩ := Prod.mk.inj (Except.ok.inj hok)
      exact (skipNewlines_reaches c).lays
  | case2 c c₁ hstop error herror =>
      intro d xs _ hok
      cases hok
  | case3 c c₁ hstop x next hfirst error hrest ih =>
      intro d xs _ hok
      cases hok
  | case4 c c₁ hstop x next hfirst later last hrest ih =>
      intro d xs horder hok
      obtain ⟨rfl, rfl⟩ := Prod.mk.inj (Except.ok.inj hok)
      have hskip := skipNewlines_reaches c
      have hlays := hitem (Bool.eq_false_iff.mpr hstop) (horder.of_reaches hskip) hfirst
      have hnext := (horder.of_reaches hskip).of_reaches hlays.reaches
      rw [List.flatMap_cons]
      exact hskip.lays.trans (hlays.trans (ih _ _ hnext hrest))

/-! ## Expressions -/

/-- An operand ends with a token up to which the span of its term reaches. -/
theorem operand_spans {start : Span} {negative : Bool} {x : Summand}
    (hok : operand start negative c = .ok (x, d)) :
    ∃ run, c.Reads run d ∧ run ≠ [] ∧
      ∀ last ∈ run.getLast?, ∀ span ∈ x.spans, span = start.merge last.span := by
  by_cases hnumber : c.kind = .number
  · obtain ⟨previous, _ | ⟨first, tokens⟩⟩ := c
    · cases hnumber
    cases hvalue : numeral first with
    | error error =>
        rw [operand_invalid _ _ _ _ hnumber hvalue] at hok
        cases hok
    | ok number =>
        by_cases hnext : (Cursor.mk (some first) tokens).kind = .ident
        · obtain _ | ⟨second, later⟩ := tokens
          · cases hnext
          rw [operand_term _ _ _ _ hnumber hvalue hnext] at hok
          obtain ⟨rfl, rfl⟩ := Prod.mk.inj (Except.ok.inj hok)
          refine ⟨[first, second], (Cursor.Reads.token _ _ _).trans (.token _ _ _),
            List.cons_ne_nil _ _, ?_⟩
          rintro last ⟨⟩ span hspan
          exact List.mem_singleton.mp hspan
        · rw [operand_constant _ _ _ _ hnumber hvalue hnext] at hok
          obtain ⟨rfl, rfl⟩ := Prod.mk.inj (Except.ok.inj hok)
          exact ⟨[first], .token _ _ _, List.cons_ne_nil _ _,
            fun last _ span hspan => absurd hspan List.not_mem_nil⟩
  by_cases hident : c.kind = .ident
  · obtain ⟨previous, _ | ⟨first, tokens⟩⟩ := c
    · cases hident
    rw [operand_variable _ _ _ _ hident] at hok
    obtain ⟨rfl, rfl⟩ := Prod.mk.inj (Except.ok.inj hok)
    refine ⟨[first], .token _ _ _, List.cons_ne_nil _ _, ?_⟩
    rintro last ⟨⟩ span hspan
    exact List.mem_singleton.mp hspan
  · rw [operand_unexpected _ _ hnumber hident] at hok
    cases hok

/-- The span of a term covers its signs, its coefficient and its name. -/
theorem summand_lays {mustSign : Bool} {x : Summand} (horder : Token.InOrder c.rest)
    (hok : summand mustSign c = .ok (x, d)) : c.Lays x.spans d := by
  -- Without a sign the operand stands at the position itself.
  obtain ⟨negative, e, ⟨signs, hsigns⟩, hoperand⟩ : ∃ negative e, c.Reaches e ∧
      operand c.span negative e = .ok (x, d) := by
    rw [summand] at hok
    split at hok
    · cases hok
    · split at hok
      · exact ⟨_, _, signs_reaches true c, hok⟩
      · exact ⟨_, _, .refl c, hok⟩
  obtain ⟨run, hrun, hne, hspans⟩ := operand_spans hoperand
  have hall := hsigns.trans hrun
  obtain ⟨last, hlast⟩ : ∃ last, last ∈ run.getLast? :=
    ⟨_, List.getLast?_eq_some_getLast hne⟩
  obtain ⟨first, hfirst, hspan⟩ := hall.exists_head (List.append_ne_nil_of_right_ne_nil _ hne)
  have hlast' : last ∈ (signs ++ run).getLast? := by
    rw [List.getLast?_append, Option.mem_def.mp hlast]
    rfl
  refine ⟨signs ++ run, hall, ?_⟩
  cases x with
  | constant value => exact .done _
  | term term =>
      apply Along.single
      rw [hspans last hlast term.span List.mem_cons_self, hspan]
      exact (horder.of_reads hall).covers_merge hfirst hlast'

theorem spans_exprOf (summands : List Summand) :
    (exprOf summands).terms.map WrittenTerm.span = summands.flatMap Summand.spans := by
  induction summands with
  | nil => rfl
  | cons summand summands ih =>
      rw [List.flatMap_cons, ← ih]
      cases summand <;> rfl

theorem expr_lays {written : WrittenExpr} (horder : Token.InOrder c.rest)
    (hok : expr c = .ok (written, d)) : c.Lays (written.terms.map WrittenTerm.span) d := by
  have hskip := skipNewlines_reaches c
  have hbehind := horder.of_reaches hskip
  by_cases hstop : atExprEnd c.skipNewlines = true
  · have hempty : expr c = .ok (exprOf [], c.skipNewlines) := by
      rw [expr]
      exact if_pos hstop
    obtain ⟨rfl, rfl⟩ := Prod.mk.inj (Except.ok.inj (hempty.symm.trans hok))
    exact hskip.lays
  · obtain ⟨first, next, later, hfirst, hlater, rfl⟩ :=
      (expr_eq_ok_iff (Bool.eq_false_iff.mpr hstop)).mp hok
    have hterm := summand_lays hbehind hfirst
    have hterms := lays_manyUntil (fun _ _ _ _ => summand_lays) next d later
      (hbehind.of_reaches hterm.reaches) hlater
    rw [spans_exprOf, List.flatMap_cons]
    exact hskip.lays.trans (hterm.trans hterms)

/-! ## Rows, bounds and the objective -/

theorem row_covers {written : Row} (horder : Token.InOrder c.rest)
    (hok : row c = .ok (written, d)) :
    ∃ run, c.Reads run d ∧ written.span.Covers run ∧
      Along run (written.expr.terms.map WrittenTerm.span) := by
  have hlt := row_shortens _ _ _ hok
  rw [row_eq] at hok
  obtain ⟨sum, e, hsum, hok⟩ := andThen_eq_ok_iff.mp hok
  obtain ⟨sign, f, hsign, hok⟩ := andThen_eq_ok_iff.mp hok
  obtain ⟨bound, g, hbound, hok⟩ := andThen_eq_ok_iff.mp hok
  obtain ⟨rfl, rfl⟩ := placed_eq_ok_iff.mp hok
  have hlabel := label?_reaches c
  have hlays := hlabel.lays.trans ((expr_lays (horder.of_reaches hlabel) hsum).trans
    ((relation_reaches hsign).trans (value_reaches hbound)).lays)
  obtain ⟨run, hrun, halong⟩ := hlays
  rw [List.append_nil] at halong
  exact ⟨run, hrun, hrun.covers (hrun.ne_nil hlt), halong⟩

theorem boundStatement_span {written : BoundStatement}
    (hok : boundStatement c = .ok (written, d)) :
    written.span = ⟨c.span.start, d.lastStop⟩ := by
  have hbounding {name : String} {sides : Option Binary64 × Option Binary64} {e : Cursor}
      (h : bounding c.span.start name sides e = .ok (written, d)) :
      written.span = ⟨c.span.start, d.lastStop⟩ := by
    obtain ⟨rfl, rfl⟩ := placed_eq_ok_iff.mp h
    rfl
  unfold boundStatement at hok
  split at hok
  · rw [valueFirstBound_eq] at hok
    obtain ⟨first, e, -, hok⟩ := andThen_eq_ok_iff.mp hok
    obtain ⟨inner, f, -, hok⟩ := andThen_eq_ok_iff.mp hok
    obtain ⟨name, g, -, hok⟩ := andThen_eq_ok_iff.mp hok
    rw [outerBound, branch] at hok
    split at hok
    · obtain ⟨outer, e', -, hok⟩ := andThen_eq_ok_iff.mp hok
      obtain ⟨second, f', -, hok⟩ := andThen_eq_ok_iff.mp hok
      exact hbounding hok
    · exact hbounding hok
  · split at hok
    · rw [nameFirstBound_eq] at hok
      obtain ⟨name, e, -, hok⟩ := andThen_eq_ok_iff.mp hok
      rw [boundOfName, branch] at hok
      split at hok
      · obtain ⟨word, f, -, hok⟩ := andThen_eq_ok_iff.mp hok
        exact hbounding hok
      · obtain ⟨sign, f, -, hok⟩ := andThen_eq_ok_iff.mp hok
        obtain ⟨bound, g, -, hok⟩ := andThen_eq_ok_iff.mp hok
        exact hbounding hok
    · cases hok

theorem boundStatement_covers {written : BoundStatement}
    (hok : boundStatement c = .ok (written, d)) :
    ∃ run, c.Reads run d ∧ written.span.Covers run := by
  obtain ⟨run, hrun⟩ := boundStatement_reaches hok
  rw [boundStatement_span hok]
  exact ⟨run, hrun, hrun.covers (hrun.ne_nil (boundStatement_shortens _ _ _ hok))⟩

theorem objectiveSection_covers {objective : ObjectiveSection} (horder : Token.InOrder c.rest)
    (hok : objectiveSection c = .ok (objective, d)) :
    ∃ run, c.skipNewlines.Reads run d ∧ objective.span.Covers run ∧
      Along run (objective.expr.terms.map WrittenTerm.span) := by
  rw [objectiveSection] at hok
  cases hkeyword : c.skipNewlines.keyword? with
  | none =>
      rw [hkeyword] at hok
      dsimp only at hok
      split at hok <;> cases hok
  | some opened =>
      obtain ⟨keyword, e⟩ := opened
      rw [hkeyword] at hok
      cases keyword with
      | objective sense =>
          have hbehind : objectiveOfLabel c.skipNewlines.span.start sense (label? e).1
              (label? e).2 = .ok (objective, d) := hok
          rw [objectiveOfLabel] at hbehind
          obtain ⟨sum, f, hsum, hplaced⟩ := andThen_eq_ok_iff.mp hbehind
          obtain ⟨rfl, rfl⟩ := placed_eq_ok_iff.mp hplaced
          have hlt : f.rest.length < c.skipNewlines.rest.length :=
            Nat.lt_of_le_of_lt (expr_advances _ _ _ hsum) (Nat.lt_of_le_of_lt
              (label?_advances e) (Cursor.length_keyword?_lt hkeyword))
          have hword := (Grammar.keywordAt_of_keyword? hkeyword).reaches
          have hlabel := hword.trans (label?_reaches e)
          have hskip := horder.of_reaches (skipNewlines_reaches c)
          obtain ⟨run, hrun, halong⟩ :=
            hlabel.lays.trans (expr_lays (hskip.of_reaches hlabel) hsum)
          exact ⟨run, hrun, hrun.covers (hrun.ne_nil hlt), halong⟩
      | _ => cases hok

/-! ## Sections -/

theorem lays_rows {rows : List Row} (horder : Token.InOrder c.rest)
    (hok : manyUntil Cursor.atBlockEnd row row_shortens c = .ok (rows, d)) :
    c.Lays (rows.map Row.span) d := by
  rw [List.map_eq_flatMap]
  refine lays_manyUntil (fun e written f _ hbehind hrow => ?_) c d rows horder hok
  obtain ⟨run, hrun, hcovers, -⟩ := row_covers hbehind hrow
  exact ⟨run, hrun, .single hcovers⟩

theorem lays_bounds {bounds : List BoundStatement} (horder : Token.InOrder c.rest)
    (hok : manyUntil Cursor.atBlockEnd boundStatement boundStatement_shortens c =
      .ok (bounds, d)) :
    c.Lays (bounds.map BoundStatement.span) d := by
  rw [List.map_eq_flatMap]
  refine lays_manyUntil (fun e written f _ _ hbound => ?_) c d bounds horder hok
  obtain ⟨run, hrun, hcovers⟩ := boundStatement_covers hbound
  exact ⟨run, hrun, .single hcovers⟩

/-- Behind its keyword a section is read as rows, as bound statements or as names alone. -/
theorem part_cases {x : Part} (hok : part c = .ok (x, d)) :
    ∃ e, c.Reaches e ∧
      ((∃ rows, x = .rows rows ∧
          manyUntil Cursor.atBlockEnd row row_shortens e = .ok (rows, d)) ∨
        (∃ bounds, x = .bounds bounds ∧
          manyUntil Cursor.atBlockEnd boundStatement boundStatement_shortens e =
            .ok (bounds, d)) ∨
        Document.rowsOfPart x = [] ∧ Document.boundsOfPart x = [] ∧ x.spans = [] ∧
          e.Reaches d) := by
  rw [part] at hok
  cases hkeyword : c.keyword? with
  | none =>
      rw [hkeyword] at hok
      cases hok
  | some opened =>
      obtain ⟨keyword, e⟩ := opened
      rw [hkeyword] at hok
      refine ⟨e, (Grammar.keywordAt_of_keyword? hkeyword).reaches, ?_⟩
      cases keyword with
      | objective sense => cases hok
      | finish =>
          obtain ⟨rfl, rfl⟩ := Prod.mk.inj (Except.ok.inj hok)
          exact .inr (.inr ⟨rfl, rfl, rfl, .refl e⟩)
      | subjectTo =>
          obtain ⟨⟨rows, f⟩, hrows, hok⟩ := bind_eq_ok_iff.mp hok
          obtain ⟨rfl, rfl⟩ := Prod.mk.inj (Except.ok.inj hok)
          exact .inl ⟨rows, rfl, hrows⟩
      | bounds =>
          obtain ⟨⟨bounds, f⟩, hbounds, hok⟩ := bind_eq_ok_iff.mp hok
          obtain ⟨rfl, rfl⟩ := Prod.mk.inj (Except.ok.inj hok)
          exact .inr (.inl ⟨bounds, rfl, hbounds⟩)
      | generals =>
          obtain ⟨⟨listed, f⟩, hnames, hok⟩ := bind_eq_ok_iff.mp hok
          obtain ⟨rfl, rfl⟩ := Prod.mk.inj (Except.ok.inj hok)
          exact .inr (.inr ⟨rfl, rfl, rfl, names_reaches hnames⟩)
      | binaries =>
          obtain ⟨⟨listed, f⟩, hnames, hok⟩ := bind_eq_ok_iff.mp hok
          obtain ⟨rfl, rfl⟩ := Prod.mk.inj (Except.ok.inj hok)
          exact .inr (.inr ⟨rfl, rfl, rfl, names_reaches hnames⟩)

/-- A section has the spans of its rows or bound statements along its tokens. -/
theorem part_lays {x : Part} (horder : Token.InOrder c.rest) (hok : part c = .ok (x, d)) :
    c.Lays x.spans d := by
  obtain ⟨e, hword, ⟨rows, rfl, hrows⟩ | ⟨bounds, rfl, hbounds⟩ | ⟨-, -, hnone, hbehind⟩⟩ :=
    part_cases hok
  · exact hword.lays.trans (lays_rows (horder.of_reaches hword) hrows)
  · exact hword.lays.trans (lays_bounds (horder.of_reaches hword) hbounds)
  · rw [hnone]
    exact (hword.trans hbehind).lays

/-- Behind a position, apart from line breaks, an item of a section is read. -/
def ReadsItem (item : Reader α) (x : α) (c : Cursor) : Prop :=
  ∃ e f, c.Reaches e ∧ e.kind ≠ .newline ∧ item e = .ok (x, f)

theorem ReadsItem.of_reaches {item : Reader α} {x : α} (h : ReadsItem item x d)
    (hreaches : c.Reaches d) : ReadsItem item x c := by
  obtain ⟨e, f, hbehind, hfound⟩ := h
  exact ⟨e, f, hreaches.trans hbehind, hfound⟩

theorem readsItem_of_mem {stop : Cursor → Bool} {item : Reader α} {h : Shortens item}
    (hitem : ∀ ⦃c x d⦄, item c = .ok (x, d) → c.Reaches d) {xs : List α}
    (hok : manyUntil stop item h c = .ok (xs, d)) : ∀ x ∈ xs, ReadsItem item x c := by
  intro x hmem
  obtain ⟨e, f, hreaches, hkind, -, hfound⟩ :=
    exists_of_mem_manyUntil (fun _ _ _ _ hone => hitem hone) c d xs hok x hmem
  exact ⟨e, f, hreaches, hkind, hfound⟩

theorem readsItem_of_part {x : Part} (hok : part c = .ok (x, d)) :
    (∀ written ∈ Document.rowsOfPart x, ReadsItem row written c) ∧
      ∀ written ∈ Document.boundsOfPart x, ReadsItem boundStatement written c := by
  obtain ⟨e, hword, ⟨rows, rfl, hrows⟩ | ⟨bounds, rfl, hbounds⟩ | ⟨hrows, hbounds, -⟩⟩ :=
    part_cases hok
  · refine ⟨fun written hmem => ?_, fun written hmem => absurd hmem List.not_mem_nil⟩
    exact (readsItem_of_mem (fun _ _ _ => row_reaches) hrows written hmem).of_reaches hword
  · refine ⟨fun written hmem => absurd hmem List.not_mem_nil, fun written hmem => ?_⟩
    exact (readsItem_of_mem (fun _ _ _ => boundStatement_reaches) hbounds written
      hmem).of_reaches hword
  · rw [hrows, hbounds]
    exact ⟨fun written hmem => absurd hmem List.not_mem_nil,
      fun written hmem => absurd hmem List.not_mem_nil⟩

end Layout

end Reader

/-! ## Documents -/

/-- Spans in order in one that is around them, all of them between characters of a text. -/
structure Span.Nests (outer : Span) (source : String) (inner : List Span) : Prop where
  falls : ∀ span ∈ outer :: inner, span.FallsOn source ∧ span.stop ≤ source.utf8ByteSize
  within : ∀ span ∈ inner, span.Within outer
  pairwise : inner.Pairwise Span.Before

/-- Tokens of a text that a form derives, without line breaks at their ends. -/
def Grammar.DerivedFrom (form : Form α) (x : α) (source : String) (run : List Token) : Prop :=
  ∃ c d, (Cursor.ofTokens (Token.scan source)).Reaches c ∧ c.Reads run d ∧ form c x d ∧
    c.kind ≠ .newline ∧ ∀ last ∈ run.getLast?, last.kind ≠ .newline

section Placed

variable {source : String} {c d : Cursor} {run : List Token} {outer : Span} {inner : List Span}

/-- The start of a text reaches only tokens of the text. -/
theorem Cursor.Reads.of_scan (hreaches : (Cursor.ofTokens (Token.scan source)).Reaches c)
    (hrun : c.Reads run d) : (∀ token ∈ run, token ∈ Token.scan source) ∧ Token.InOrder run := by
  have hsub : run.Sublist (Token.scan source) := by
    have hrest : run.Sublist c.rest := by
      rw [hrun.rest]
      exact List.sublist_append_left run d.rest
    exact (hrest.trans hreaches.rest_suffix.sublist).trans List.filter_sublist
  exact ⟨fun token hmem => hsub.subset hmem, (Token.inOrder_scan source).sublist hsub⟩

theorem Span.Covers.fallsOn {span : Span} (h : span.Covers run) (horder : Token.InOrder run)
    (hscan : ∀ token ∈ run, token ∈ Token.scan source) :
    span.FallsOn source ∧ span.stop ≤ source.utf8ByteSize := by
  have hordered := horder.ordered_of_covers h
  obtain ⟨⟨first, hfirst, hstart⟩, last, hlast, hstop⟩ := h
  have hfirst' := Token.fallsOn_of_mem_scan (hscan first (List.mem_of_head? hfirst))
  have hlast' := Token.fallsOn_of_mem_scan (hscan last (List.mem_of_getLast? hlast))
  refine ⟨⟨hordered, ?_, ?_⟩, ?_⟩
  · rw [hstart]
    exact hfirst'.start
  · rw [hstop]
    exact hlast'.stop
  · rw [hstop]
    exact hlast'.stop.le_rawEndPos

theorem Span.Covers.nests (h : outer.Covers run) (halong : Along run inner)
    (horder : Token.InOrder run) (hscan : ∀ token ∈ run, token ∈ Token.scan source) :
    outer.Nests source inner := by
  refine ⟨List.forall_mem_cons.mpr ⟨h.fallsOn horder hscan, fun span hmem => ?_⟩,
    fun span hmem => ?_, halong.pairwise horder⟩
  · obtain ⟨run', hpart, hcovers⟩ := halong.exists_covers span hmem
    exact hcovers.fallsOn (horder.sublist hpart.sublist)
      fun token htoken => hscan token (hpart.subset htoken)
  · obtain ⟨run', hpart, hcovers⟩ := halong.exists_covers span hmem
    exact horder.within h hcovers hpart

namespace Grammar

theorem ValueAt.last_kind {value : Binary64} (h : ValueAt c value d) :
    ∀ last ∈ d.previous, last.kind ≠ .newline := by
  obtain ⟨-, -, hvalue⟩ := h
  rintro last ⟨⟩
  cases hvalue with
  | number hnumber => simp [hnumber.kind]
  | infinity hword => simp [kind_of_isInfinityWord hword]

theorem NameAt.last_kind {name : String} (h : NameAt c name d) :
    ∀ last ∈ d.previous, last.kind ≠ .newline := by
  obtain ⟨-, hkind⟩ := h
  rintro last ⟨⟩
  simp [hkind]

theorem RowAt.last_kind {written : Row} (h : RowAt c written d) :
    ∀ last ∈ d.previous, last.kind ≠ .newline := by
  obtain ⟨-, -, -, hrhs⟩ := h
  exact hrhs.last_kind

theorem BoundAt.last_kind {written : BoundStatement} (h : BoundAt c written d) :
    ∀ last ∈ d.previous, last.kind ≠ .newline := by
  cases h with
  | oneSided _ _ _ hname _ => exact hname.last_kind
  | twoSided _ _ _ _ _ _ hvalue' => exact hvalue'.last_kind
  | free _ _ _ hfree =>
      obtain ⟨word, hword⟩ := NameAt.of_freeAt hfree
      exact hword.last_kind
  | nameFirst _ _ _ _ hvalue => exact hvalue.last_kind

theorem DerivedFrom.intro {form : Form α} {x : α}
    (hreaches : (Cursor.ofTokens (Token.scan source)).Reaches c) (hkind : c.kind ≠ .newline)
    (hrun : c.Reads run d) (hform : form c x d)
    (hlast : ∀ last ∈ d.previous, last.kind ≠ .newline) : DerivedFrom form x source run := by
  refine ⟨c, d, hreaches, hrun, hform, hkind, fun last hmem => hlast last ?_⟩
  rw [hrun.previous, Option.mem_def.mp hmem]
  rfl

end Grammar

namespace Reader

theorem row_placed {written : Row}
    (h : ReadsItem row written (Cursor.ofTokens (Token.scan source))) :
    written.span.Nests source (written.expr.terms.map WrittenTerm.span) ∧
      ∃ run, Grammar.DerivedFrom Grammar.RowAt written.bare source run ∧
        written.span.Covers run := by
  obtain ⟨e, f, hreaches, hkind, hok⟩ := h
  have hbehind := ((Token.inOrder_scan source).sublist List.filter_sublist).of_reaches hreaches
  obtain ⟨run, hrun, hcovers, halong⟩ := row_covers hbehind hok
  obtain ⟨hscan, horder⟩ := hrun.of_scan hreaches
  have hform := (Grammar.recognises_row e).of_eq_ok hok
  exact ⟨hcovers.nests halong horder hscan, run,
    .intro hreaches hkind hrun hform hform.last_kind, hcovers⟩

theorem boundStatement_placed {written : BoundStatement}
    (h : ReadsItem boundStatement written (Cursor.ofTokens (Token.scan source))) :
    written.span.Nests source [] ∧
      ∃ run, Grammar.DerivedFrom Grammar.BoundAt written.bare source run ∧
        written.span.Covers run := by
  obtain ⟨e, f, hreaches, hkind, hok⟩ := h
  obtain ⟨run, hrun, hcovers⟩ := boundStatement_covers hok
  obtain ⟨hscan, horder⟩ := hrun.of_scan hreaches
  have hform := (Grammar.recognises_boundStatement e).of_eq_ok hok
  exact ⟨hcovers.nests (.done run) horder hscan, run,
    .intro hreaches hkind hrun hform hform.last_kind, hcovers⟩

end Reader

end Placed

namespace Document

/-- How the spans of a document lie in its source. -/
structure WellPlaced (document : Document) (source : String) : Prop where
  objective : document.objective.span.Nests source
    (document.objective.expr.terms.map WrittenTerm.span)
  row : ∀ row ∈ document.rows, row.span.Nests source (row.expr.terms.map WrittenTerm.span)
  bound : ∀ bound ∈ document.bounds, bound.span.Nests source []
  /-- Rows come one behind another, and so do bound statements. -/
  rows : (document.rows.map Row.span).Pairwise Span.Before
  bounds : (document.bounds.map BoundStatement.span).Pairwise Span.Before
  /-- The objective comes before them all. -/
  first : ∀ span ∈ document.rows.map Row.span ++ document.bounds.map BoundStatement.span,
    document.objective.span.Before span
  /-- Sections may alternate, but no row overlaps a bound statement. -/
  apart : ∀ row ∈ document.rows, ∀ bound ∈ document.bounds,
    row.span.Before bound.span ∨ bound.span.Before row.span
  rowTokens : ∀ row ∈ document.rows, ∃ run,
    Grammar.DerivedFrom Grammar.RowAt row.bare source run ∧ row.span.Covers run
  boundTokens : ∀ bound ∈ document.bounds, ∃ run,
    Grammar.DerivedFrom Grammar.BoundAt bound.bare source run ∧ bound.span.Covers run

/-! ### Sections in order -/

section Sections

open Reader (Part)

theorem map_span_rowsOfPart (part : Part) :
    ((rowsOfPart part).map Row.span).Sublist part.spans := by
  cases part with
  | rows listed => exact .refl _
  | _ => exact List.nil_sublist _

theorem map_span_boundsOfPart (part : Part) :
    ((boundsOfPart part).map BoundStatement.span).Sublist part.spans := by
  cases part with
  | bounds listed => exact .refl _
  | _ => exact List.nil_sublist _

theorem map_span_rows (parts : List Part) :
    ((parts.flatMap rowsOfPart).map Row.span).Sublist (parts.flatMap Part.spans) := by
  rw [List.map_flatMap]
  exact List.Sublist.flatMap_right parts fun part _ => map_span_rowsOfPart part

theorem map_span_bounds (parts : List Part) :
    ((parts.flatMap boundsOfPart).map BoundStatement.span).Sublist
      (parts.flatMap Part.spans) := by
  rw [List.map_flatMap]
  exact List.Sublist.flatMap_right parts fun part _ => map_span_boundsOfPart part

/-- A row and a bound statement stand in different sections, one of which comes first. -/
theorem apart_of_pairwise {parts : List Part}
    (h : (parts.flatMap Part.spans).Pairwise Span.Before) {row : Row} {bound : BoundStatement}
    (hrow : row ∈ parts.flatMap rowsOfPart) (hbound : bound ∈ parts.flatMap boundsOfPart) :
    row.span.Before bound.span ∨ bound.span.Before row.span := by
  obtain ⟨-, hparts⟩ := List.pairwise_flatMap.mp h
  rw [List.pairwise_iff_getElem] at hparts
  obtain ⟨part, hpart, hrow⟩ := List.mem_flatMap.mp hrow
  obtain ⟨part', hpart', hbound⟩ := List.mem_flatMap.mp hbound
  have hspan := (map_span_rowsOfPart part).subset (List.mem_map_of_mem hrow)
  have hspan' := (map_span_boundsOfPart part').subset (List.mem_map_of_mem hbound)
  obtain ⟨i, hi, rfl⟩ := List.getElem_of_mem hpart
  obtain ⟨j, hj, rfl⟩ := List.getElem_of_mem hpart'
  rcases Nat.lt_trichotomy i j with hlt | rfl | hlt
  · exact .inl (hparts i j hi hj hlt _ hspan _ hspan')
  · cases hsection : parts[i] with
    | rows listed =>
        rw [hsection] at hbound
        exact absurd hbound List.not_mem_nil
    | _ =>
        rw [hsection] at hrow
        exact absurd hrow List.not_mem_nil
  · exact .inr (hparts j i hj hi hlt _ hspan' _ hspan)

end Sections

/-- Every row and every bound statement of some sections is read somewhere in them. -/
theorem readsItem_of_parts {c d : Cursor} {parts : List Reader.Part}
    (hparts : Reader.manyUntil Reader.atDocumentEnd Reader.part Reader.part_shortens c =
      .ok (parts, d)) :
    (∀ row ∈ parts.flatMap rowsOfPart, Reader.ReadsItem Reader.row row c) ∧
      ∀ bound ∈ parts.flatMap boundsOfPart,
        Reader.ReadsItem Reader.boundStatement bound c := by
  have hfound := Reader.exists_of_mem_manyUntil
    (fun _ _ _ hgoes hok => Reader.part_reaches hgoes hok) c d parts hparts
  constructor
  · intro row hmem
    obtain ⟨part, hpart, hrow⟩ := List.mem_flatMap.mp hmem
    obtain ⟨e, f, hreaches, -, -, hok⟩ := hfound part hpart
    exact ((Reader.readsItem_of_part hok).1 row hrow).of_reaches hreaches
  · intro bound hmem
    obtain ⟨part, hpart, hbound⟩ := List.mem_flatMap.mp hmem
    obtain ⟨e, f, hreaches, -, -, hok⟩ := hfound part hpart
    exact ((Reader.readsItem_of_part hok).2 bound hbound).of_reaches hreaches

/--
The spans of a parsed document nest as the document does.  They fall on characters of the
source; those of terms lie in order in the span of their row or of the objective; rows come
in order, and so do bound statements, and no two of them overlap each other or the
objective.  A row or a bound statement begins with the first byte of the first token that
it is derived from and ends with the last byte of the last one.
-/
theorem wellPlaced_of_parse {source : String} {document : Document}
    (hparse : parse source = .ok document) : document.WellPlaced source := by
  have horder : Token.InOrder (Cursor.ofTokens (Token.scan source)).rest :=
    (Token.inOrder_scan source).sublist List.filter_sublist
  rw [parse, ofTokens_eq, sectionsFrom] at hparse
  obtain ⟨⟨objective, c⟩, hobjective, hparse⟩ := Reader.bind_eq_ok_iff.mp hparse
  obtain ⟨⟨parts, d⟩, hparts, hparse⟩ := Reader.bind_eq_ok_iff.mp hparse
  obtain rfl := Except.ok.inj hparse
  have hskip := Reader.skipNewlines_reaches (Cursor.ofTokens (Token.scan source))
  obtain ⟨run, hrun, hcovers, halong⟩ := Reader.objectiveSection_covers horder hobjective
  obtain ⟨hscan, hinOrder⟩ := hrun.of_scan hskip
  have hreaches : (Cursor.ofTokens (Token.scan source)).Reaches c := hskip.trans ⟨run, hrun⟩
  -- The objective and the sections behind it have their spans along the tokens of the text.
  have hlays : (Cursor.ofTokens (Token.scan source)).Lays
      (objective.span :: parts.flatMap Reader.Part.spans) d :=
    (hskip.lays.trans ⟨run, hrun, .single hcovers⟩).trans
      (Reader.lays_manyUntil (fun _ _ _ _ => Reader.part_lays) c d parts
        (horder.of_reaches hreaches) hparts)
  obtain ⟨all, hall, hspans⟩ := hlays
  obtain ⟨hfirst, hpairwise⟩ := List.pairwise_cons.mp (hspans.pairwise (horder.of_reads hall))
  obtain ⟨hrows, hbounds⟩ := readsItem_of_parts hparts
  exact {
    objective := hcovers.nests halong hinOrder hscan
    row := fun row hmem => (Reader.row_placed ((hrows row hmem).of_reaches hreaches)).1
    bound := fun bound hmem =>
      (Reader.boundStatement_placed ((hbounds bound hmem).of_reaches hreaches)).1
    rows := hpairwise.sublist (map_span_rows parts)
    bounds := hpairwise.sublist (map_span_bounds parts)
    first := fun span hmem => hfirst span ((List.mem_append.mp hmem).elim
      (fun hrow => (map_span_rows parts).subset hrow)
      (fun hbound => (map_span_bounds parts).subset hbound))
    apart := fun row hrow bound hbound => apart_of_pairwise hpairwise hrow hbound
    rowTokens := fun row hmem => (Reader.row_placed ((hrows row hmem).of_reaches hreaches)).2
    boundTokens := fun bound hmem =>
      (Reader.boundStatement_placed ((hbounds bound hmem).of_reaches hreaches)).2 }

/-- A row over two lines, and a bound statement between two rows. -/
def interleaved : String :=
  "\\ demo\nMin\n x\n + 2 y\nST\n a: x -\n y >= 1\nBounds\n -1 <= x\nST\n b: y <= 2\nEnd\n"

theorem wellPlaced_interleaved :
    ∃ document, parse interleaved = .ok document ∧ document.WellPlaced interleaved ∧
      document.rows.map Row.span = [⟨25, 39⟩, ⟨60, 69⟩] ∧
      document.bounds.map BoundStatement.span = [⟨48, 55⟩] := by
  have hread : ∃ found, (parse interleaved).toOption = some found ∧
      found.rows.map Row.span = [⟨25, 39⟩, ⟨60, 69⟩] ∧
      found.bounds.map BoundStatement.span = [⟨48, 55⟩] := by decide +kernel
  obtain ⟨document, hfound, hspans⟩ := hread
  have hok := Reader.eq_ok_of_toOption_eq_some hfound
  exact ⟨document, hok, wellPlaced_of_parse hok, hspans⟩

end Document

end LinearProgram
