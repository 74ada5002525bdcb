import LinearProgram.Proofs.Document.Recognition
import LinearProgram.Proofs.Token.Numbers

/-!
# What is read is what the grammar derives

Forms are put together as parsers are: one behind another, or one of two as the position
tells.  Rows, bound statements and sections are recognised because their parts are.  A
label may be there or not, and there is no choice about it, for no expression begins with
a label.  The main statement is `Document.parse_iff_derives`.
-/

namespace LinearProgram

namespace Grammar

open Reader

/-! ## Forms put together -/

/-- One form behind another. -/
def Form.andThen (form : Form α) (next : α → Form β) : Form β := fun c y d =>
  ∃ x e, form c x e ∧ next x e y d

/-- Nothing, which stands for one thing. -/
def Form.only (x : α) : Form α := fun c y d =>
  y = x ∧ d = c

/-- One form where a condition holds, and another one elsewhere. -/
def Form.branch (here : Cursor → Prop) (form form' : Form α) : Form α := fun c y d =>
  here c ∧ form c y d ∨ ¬here c ∧ form' c y d

theorem recognises_id {p : Reader α} {form : Form α} {c : Cursor}
    (h : ∀ {d x}, p c = .ok (x, d) ↔ form c x d) : Recognises p id form c :=
  fun y d => by simp [h]

theorem recognises_placed {g : Nat → α} {f : α → β} {y : β} (h : ∀ stop, f (g stop) = y)
    (c : Cursor) : Recognises (placed g) f (.only y) c := by
  intro z d
  simp only [placed_eq_ok_iff, Form.only]
  constructor
  · rintro ⟨x, ⟨rfl, rfl⟩, rfl⟩
    exact ⟨h _, rfl⟩
  · rintro ⟨rfl, rfl⟩
    exact ⟨_, ⟨rfl, rfl⟩, h _⟩

section Together

variable {p q : Reader α} {g : α → Reader γ} {f : α → β} {f' : γ → δ} {form form' : Form β}
  {next : β → Form δ} {c : Cursor}

theorem Recognises.andThen (hp : Recognises p f form c)
    (hg : ∀ x e, Recognises (g x) f' (next (f x)) e) :
    Recognises (p.andThen g) f' (form.andThen next) c := by
  intro z d
  constructor
  · rintro ⟨w, hok, rfl⟩
    obtain ⟨x, e, hx, hw⟩ := andThen_eq_ok_iff.mp hok
    exact ⟨f x, e, (hp _ _).mp ⟨x, hx, rfl⟩, (hg x e _ _).mp ⟨w, hw, rfl⟩⟩
  · rintro ⟨y, e, hform, hnext⟩
    obtain ⟨x, hx, rfl⟩ := (hp _ _).mpr hform
    obtain ⟨w, hw, rfl⟩ := (hg x e _ _).mpr hnext
    exact ⟨w, andThen_eq_ok_iff.mpr ⟨x, e, hx, hw⟩, rfl⟩

/-- Both values may be wrapped up. -/
theorem Recognises.wrapped (hp : Recognises p f form c) (wrap : α → γ) (wrap' : β → δ)
    (hwrap : ∀ x, f' (wrap x) = wrap' (f x)) :
    Recognises (p.andThen fun x => placed fun _ => wrap x) f'
      (form.andThen fun y => .only (wrap' y)) c :=
  hp.andThen fun x e => recognises_placed (fun _ => hwrap x) e

theorem Recognises.branch {here : Cursor → Prop} {test : Cursor → Bool}
    (htest : here c ↔ test c = true) (hp : Recognises p f form c) (hq : Recognises q f form' c) :
    Recognises (branch test p q) f (form.branch here form') c := by
  intro y d
  rw [Reader.branch, Form.branch, htest]
  by_cases hyes : test c = true
  · rw [if_pos hyes, hp]
    simp [hyes]
  · rw [if_neg hyes, hq]
    simp [hyes]

end Together

/-! ## Labels -/

theorem label?_of_labelAt {c d : Cursor} {name : String} (h : LabelAt c (some name) d) :
    label? c = (some name, d) := by
  cases h with
  | named hbreaks hname hcolon =>
      rw [← label?_skipNewlines, ← breaks_iff.mp hbreaks, label?_colon hname hcolon]

theorem label?_cases (c : Cursor) :
    (∃ name d, LabelAt c (some name) d ∧ label? c = (some name, d)) ∨
      label? c = (none, c.skipNewlines) := by
  have hbreaks := breaks_skipNewlines c
  by_cases hname : c.skipNewlines.kind = .ident
  · rcases hskip : c.skipNewlines with ⟨previous, _ | ⟨name, later⟩⟩
    · rw [hskip] at hname
      cases hname
    rw [hskip] at hbreaks hname
    by_cases hcolon : firstKind later = .colon
    · obtain _ | ⟨colon, tokens⟩ := later
      · cases hcolon
      have hlabel := LabelAt.named hbreaks hname hcolon
      exact .inl ⟨_, _, hlabel, label?_of_labelAt hlabel⟩
    · rw [← hskip]
      exact .inr (label?_eq_none (.inr ⟨name, later, by rw [hskip], hcolon⟩))
  · exact .inr (label?_eq_none (.inl hname))

/-- Behind a term there is no colon in an expression. -/
theorem not_many_of_colon {previous : Option Token} {colon : Token} {tokens : List Token}
    (hcolon : colon.kind = .colon) {summands : List Summand} {d : Cursor} :
    ¬Many StopsExpr (TermAt true) ⟨previous, colon :: tokens⟩ summands d := by
  have hstay : (Cursor.mk previous (colon :: tokens)).skipNewlines = ⟨previous, colon :: tokens⟩ :=
    Cursor.skipNewlines_cons (by simp [hcolon]) _ _
  intro h
  cases h with
  | done hbreaks hstops =>
      rw [breaks_iff.mp hbreaks, hstay] at hstops
      refine not_stopsExpr (fun relation => ?_) (fun keyword e hat => ?_) hstops
      · rw [hcolon]
        cases relation <;> exact TokenKind.noConfusion
      · cases hcolon.symm.trans hat.kind
  | step hbreaks hgoes hitem hlater =>
      rw [breaks_iff.mp hbreaks, hstay] at hitem
      obtain ⟨hmust, -, -⟩ := hitem
      rcases hmust rfl with hkind | hkind <;> cases hcolon.symm.trans hkind

/-- No expression begins with a label. -/
theorem ExprAt.not_labelAt {c d e : Cursor} {written : WrittenExpr} {name : String}
    (h : ExprAt c written d) : ¬LabelAt c (some name) e := by
  intro hlabel
  cases hlabel with
  | @named _ previous name colon tokens hlabel hname hcolon =>
      have hskip := breaks_iff.mp hlabel
      cases h with
      | empty hbreaks hstops =>
          rw [breaks_iff.mp hbreaks, ← hskip] at hstops
          refine not_stopsExpr (fun relation => ?_)
            (fun keyword e => not_keywordAt_of_colon hcolon) hstops
          rw [hname]
          cases relation <;> exact TokenKind.noConfusion
      | terms hbreaks hgoes hfirst hlater =>
          rw [breaks_iff.mp hbreaks, ← hskip] at hfirst
          obtain ⟨-, hsigns, hoperand⟩ := hfirst
          cases hsigns with
          | plus hkind _ _ => cases hname.symm.trans hkind
          | minus hkind _ _ => cases hname.symm.trans hkind
          | none =>
              cases hoperand with
              | scaled hnumber _ => cases hname.symm.trans hnumber.kind
              | lone hnumber _ => cases hname.symm.trans hnumber.kind
              | plain _ => exact not_many_of_colon hcolon hlater

theorem recognises_behindLabel {p : Option String → Reader α} {f : α → β}
    {form : Option String → Form β} (hp : ∀ label c, Recognises (p label) f (form label) c)
    (hskips : ∀ label, Skips (p label))
    (hform : ∀ {label c y d name e}, form label c y d → ¬LabelAt c (some name) e) (c : Cursor) :
    Recognises (behindLabel p) f (Form.andThen LabelAt form) c := by
  intro y d
  rcases label?_cases c with ⟨name, e, hlabel, hsome⟩ | hnone
  · -- The label that stands here cannot be left to the form behind it.
    rw [behindLabel, hsome, hp]
    refine ⟨fun hfound => ⟨_, _, hlabel, hfound⟩, ?_⟩
    rintro ⟨label, e', hlabel', hfound⟩
    cases label with
    | none =>
        cases hlabel'
        exact absurd hlabel (hform hfound)
    | some name' =>
        obtain ⟨hname, rfl⟩ := Prod.mk.inj (hsome.symm.trans (label?_of_labelAt hlabel'))
        rwa [hname]
  · -- The line breaks that were gone over in search of a label do not matter.
    rw [behindLabel, hnone, hskips, hp]
    refine ⟨fun hfound => ⟨_, _, .absent, hfound⟩, ?_⟩
    rintro ⟨label, e', hlabel', hfound⟩
    cases label with
    | none =>
        cases hlabel'
        exact hfound
    | some name' => cases hnone.symm.trans (label?_of_labelAt hlabel')

/-! ## Rows -/

theorem recognises_relation (c : Cursor) : Recognises relation id RelationAt c :=
  recognises_id relation_eq_ok_iff

theorem recognises_value (c : Cursor) : Recognises value id ValueAt c :=
  recognises_id value_eq_ok_iff

theorem skips_andThen {p : Reader α} {g : α → Reader β} (hp : Skips p) :
    Skips (p.andThen g) := by
  intro c
  rw [Reader.andThen, Reader.andThen, hp]

/-- What a row is behind its label. -/
def rowBehindLabel (label : Option String) : Form Row :=
  .andThen ExprAt fun expr => .andThen RelationAt fun relation => .andThen ValueAt fun rhs =>
    .only ⟨⟨0, 0⟩, label, expr, relation, rhs⟩

theorem rowAt_iff {c d : Cursor} {written : Row} :
    RowAt c written d ↔ Form.andThen LabelAt rowBehindLabel c written d := by
  constructor
  · rintro ⟨hlabel, hexpr, hrelation, hrhs⟩
    exact ⟨_, _, hlabel, _, _, hexpr, _, _, hrelation, _, _, hrhs, rfl, rfl⟩
  · rintro ⟨_, _, hlabel, _, _, hexpr, _, _, hrelation, _, _, hrhs, rfl, rfl⟩
    exact .row hlabel hexpr hrelation hrhs

theorem recognises_row (c : Cursor) : Recognises row Row.bare RowAt c := by
  intro written d
  have hrow (label : Option String) (e : Cursor) :
      Recognises (expr.andThen (rowOf c.span.start label)) Row.bare (rowBehindLabel label) e :=
    (recognises_expr e).andThen fun _ _ => (recognises_relation _).andThen fun _ _ =>
      (recognises_value _).andThen fun _ _ => recognises_placed (fun _ => rfl) _
  rw [row_eq, rowAt_iff, recognises_behindLabel hrow fun _ => skips_andThen skips_expr]
  rintro label c y d name e ⟨_, _, hexpr, -⟩
  exact hexpr.not_labelAt

/-! ## Bounds -/

theorem beginsWithValue_iff {c : Cursor} : BeginsWithValue c ↔ atBoundValue c = true := by
  obtain ⟨previous, _ | ⟨first, tokens⟩⟩ := c
  · refine ⟨fun h => ?_, fun h => by cases h⟩
    rcases h with hkind | (hkind | hkind) | hword <;> cases hkind
  · rw [atBoundValue]
    dsimp only
    rw [Bool.or_eq_true, Bool.or_eq_true, Bool.and_eq_true, decide_eq_true_eq, ← atSign_iff,
      ← atRelationSign_iff]
    constructor
    · rintro (hkind | hsign | ⟨hword, hrelation⟩)
      · exact .inl (.inl hkind)
      · exact .inl (.inr hsign)
      · exact .inr ⟨hword, hrelation⟩
    · rintro ((hkind | hsign) | ⟨hword, hrelation⟩)
      · exact .number hkind
      · exact .sign hsign
      · exact .infinity hword hrelation

theorem freeAt_iff {c : Cursor} : (∃ d, FreeAt c d) ↔ atFree c = true := by
  obtain ⟨previous, _ | ⟨word, tokens⟩⟩ := c
  · refine ⟨?_, fun h => by cases h⟩
    rintro ⟨_, _, _, _, heq, -⟩
    cases heq
  · rw [atFree_eq_true_iff]
    constructor
    · rintro ⟨_, _, _, _, heq, hident, hfree, -⟩
      cases heq
      exact ⟨hident, hfree⟩
    · rintro ⟨hident, hfree⟩
      exact ⟨_, _, _, _, rfl, hident, hfree, rfl⟩

/-- What a bound statement says behind a number, a relation and a name. -/
def secondBound (name : String) (sides : Option Binary64 × Option Binary64) :
    Form BoundStatement :=
  .branch AtRelationSign
    (.andThen RelationAt fun outer => .andThen ValueAt fun second =>
      .only (bounded name (overSides (sidesOf outer second) sides)))
    (.only (bounded name sides))

/-- What a bound statement says behind the name with which it begins. -/
def boundBehindName (name : String) : Form BoundStatement :=
  .branch (fun c => ∃ d, FreeAt c d)
    (.andThen NameAt fun _ => .only (bounded name (some (.infinity true), some (.infinity false))))
    (.andThen RelationAt fun relation => .andThen ValueAt fun bound =>
      .only (bounded name (sidesOf relation bound)))

def boundBehindValue : Form BoundStatement :=
  .andThen ValueAt fun first => .andThen RelationAt fun inner => .andThen NameAt fun name =>
    secondBound name (sidesOf inner.flip first)

theorem recognises_valueFirstBound (start : Nat) (c : Cursor) :
    Recognises (valueFirstBound start) BoundStatement.bare boundBehindValue c := by
  have hsecond (name : String) (sides : Option Binary64 × Option Binary64) (e : Cursor) :
      Recognises (outerBound start name sides) BoundStatement.bare (secondBound name sides) e :=
    Recognises.branch atRelationSign_iff
      ((recognises_relation e).andThen fun _ _ => (recognises_value _).andThen fun _ _ =>
        recognises_placed (fun _ => rfl) _)
      (recognises_placed (fun _ => rfl) e)
  rw [valueFirstBound_eq]
  exact (recognises_value c).andThen fun _ _ => (recognises_relation _).andThen fun _ _ =>
    (recognises_name _).andThen fun _ _ => hsecond _ _ _

theorem recognises_nameFirstBound (start : Nat) (c : Cursor) :
    Recognises (nameFirstBound start) BoundStatement.bare (.andThen NameAt boundBehindName) c := by
  rw [nameFirstBound_eq]
  exact (recognises_name c).andThen fun _ _ => Recognises.branch freeAt_iff
    ((recognises_name _).andThen fun _ _ => recognises_placed (fun _ => rfl) _)
    ((recognises_relation _).andThen fun _ _ => (recognises_value _).andThen fun _ _ =>
      recognises_placed (fun _ => rfl) _)

section Bounds

variable {c d : Cursor} {written : BoundStatement}

theorem boundAt_iff_of_begins (hbegins : BeginsWithValue c) :
    BoundAt c written d ↔ boundBehindValue c written d := by
  constructor
  · rintro (⟨-, hvalue, hrelation, hname, hends⟩ |
      ⟨-, hvalue, hrelation, hname, hgoes, hrelation', hvalue'⟩ | ⟨-, hnot, -, -⟩ |
      ⟨-, hnot, -, -, -⟩)
    · exact ⟨_, _, hvalue, _, _, hrelation, _, _, hname, .inr ⟨hends, rfl, rfl⟩⟩
    · exact ⟨_, _, hvalue, _, _, hrelation, _, _, hname,
        .inl ⟨hgoes, _, _, hrelation', _, _, hvalue', rfl, rfl⟩⟩
    · exact absurd hbegins hnot
    · exact absurd hbegins hnot
  · rintro ⟨_, _, hvalue, _, _, hrelation, _, _, hname,
      ⟨hgoes, _, _, hrelation', _, _, hvalue', rfl, rfl⟩ | ⟨hends, rfl, rfl⟩⟩
    · exact .twoSided hbegins hvalue hrelation hname hgoes hrelation' hvalue'
    · exact .oneSided hbegins hvalue hrelation hname hends

theorem NameAt.of_freeAt (hfree : FreeAt c d) : ∃ name, NameAt c name d := by
  obtain ⟨previous, word, tokens, rfl, hident, -, rfl⟩ := hfree
  exact ⟨_, .name (.stay (by simp [hident])) hident⟩

theorem NameAt.unique {e : Cursor} {name name' : String} (h : NameAt c name d)
    (h' : NameAt c name' e) : name = name' ∧ d = e := by
  cases h with
  | name hbreaks hkind =>
      cases h' with
      | name hbreaks' hkind' =>
          cases (breaks_iff.mp hbreaks).trans (breaks_iff.mp hbreaks').symm
          exact ⟨rfl, rfl⟩

/-- The word `free` is no relation. -/
theorem not_relationAt_of_freeAt {e : Cursor} {relation : Relation} (hfree : FreeAt c d) :
    ¬RelationAt c relation e := by
  rintro ⟨hbreaks, hkind⟩
  obtain ⟨previous, word, tokens, rfl, hident, -, rfl⟩ := hfree
  rw [breaks_iff, Cursor.skipNewlines_cons (by simp [hident])] at hbreaks
  cases hbreaks
  cases relation <;> cases hident.symm.trans hkind

theorem boundAt_iff_of_ident (hbegins : ¬BeginsWithValue c) (hkind : c.kind = .ident) :
    BoundAt c written d ↔ Form.andThen NameAt boundBehindName c written d := by
  constructor
  · rintro (⟨hvalue, -⟩ | ⟨hvalue, -⟩ | ⟨-, -, hname, hfree⟩ |
      ⟨-, -, hname, hrelation, hvalue⟩)
    · exact absurd hvalue hbegins
    · exact absurd hvalue hbegins
    · obtain ⟨word, hword⟩ := NameAt.of_freeAt hfree
      exact ⟨_, _, hname, .inl ⟨⟨_, hfree⟩, word, _, hword, rfl, rfl⟩⟩
    · refine ⟨_, _, hname, .inr ⟨?_, _, _, hrelation, _, _, hvalue, rfl, rfl⟩⟩
      rintro ⟨_, hfree⟩
      exact not_relationAt_of_freeAt hfree hrelation
  · rintro ⟨_, _, hname, ⟨⟨_, hfree⟩, _, _, hword, rfl, rfl⟩ |
      ⟨-, _, _, hrelation, _, _, hvalue, rfl, rfl⟩⟩
    · obtain ⟨word, hword'⟩ := NameAt.of_freeAt hfree
      obtain ⟨-, rfl⟩ := hword.unique hword'
      exact .free hkind hbegins hname hfree
    · exact .nameFirst hkind hbegins hname hrelation hvalue

end Bounds

theorem recognises_boundStatement (c : Cursor) :
    Recognises boundStatement BoundStatement.bare BoundAt c := by
  intro written d
  rw [boundStatement]
  by_cases hvalue : atBoundValue c = true
  · rw [if_pos hvalue, boundAt_iff_of_begins (beginsWithValue_iff.mpr hvalue)]
    exact recognises_valueFirstBound _ _ _ _
  have hbegins : ¬BeginsWithValue c := mt beginsWithValue_iff.mp hvalue
  rw [if_neg hvalue]
  by_cases hident : c.kind = .ident
  · rw [if_pos hident, boundAt_iff_of_ident hbegins hident]
    exact recognises_nameFirstBound _ _ _ _
  · rw [if_neg hident]
    constructor
    · rintro ⟨_, hok, -⟩
      cases hok
    · rintro (⟨hat, -⟩ | ⟨hat, -⟩ | ⟨hkind, -⟩ | ⟨hkind, -⟩)
      · exact absurd hat hbegins
      · exact absurd hat hbegins
      · exact absurd hkind hident
      · exact absurd hkind hident

/-! ## Sections -/

theorem recognises_names (c : Cursor) : Recognises names id (Many EndsBlock NameAt) c := by
  intro listed d
  have hmany : Recognises (manyUntil Cursor.atBlockEnd (token .ident) (token_shortens .ident))
      (List.map Token.text) (Many EndsBlock NameAt) c :=
    recognises_manyUntil endsBlock_iff (fun _ => recognises_name _) c
  rw [← hmany, names_eq]
  simp only [andThen_eq_ok_iff, placed_eq_ok_iff]
  constructor
  · rintro ⟨_, ⟨tokens, e, hok, rfl, rfl⟩, rfl⟩
    exact ⟨tokens, hok, rfl⟩
  · rintro ⟨tokens, hok, rfl⟩
    exact ⟨_, ⟨tokens, d, hok, rfl, rfl⟩, rfl⟩

theorem recognises_rows (c : Cursor) :
    Recognises (manyUntil Cursor.atBlockEnd row row_shortens) (List.map Row.bare)
      (Many EndsBlock RowAt) c :=
  recognises_manyUntil endsBlock_iff (fun _ => recognises_row _) c

theorem recognises_bounds (c : Cursor) :
    Recognises (manyUntil Cursor.atBlockEnd boundStatement boundStatement_shortens)
      (List.map BoundStatement.bare) (Many EndsBlock BoundAt) c :=
  recognises_manyUntil endsBlock_iff (fun _ => recognises_boundStatement _) c

/-- What a section is behind its keyword. -/
def sectionBehind : SectionKeyword → Form Part
  | .subjectTo => .andThen (Many EndsBlock RowAt) fun rows => .only (.rows rows)
  | .bounds => .andThen (Many EndsBlock BoundAt) fun bounds => .only (.bounds bounds)
  | .generals => .andThen (Many EndsBlock NameAt) fun names => .only (.generals names)
  | .binaries => .andThen (Many EndsBlock NameAt) fun names => .only (.binaries names)
  | .objective _ | .finish => fun _ _ _ => False

theorem sectionAt_iff {c d last : Cursor} {keyword : SectionKeyword}
    (hkeyword : KeywordAt c keyword d) {found : Part} :
    SectionAt c found last ↔ sectionBehind keyword d found last := by
  constructor
  · rintro (⟨hat, hitems⟩ | ⟨hat, hitems⟩ | ⟨hat, hitems⟩ | ⟨hat, hitems⟩) <;>
    · obtain ⟨rfl, rfl⟩ := hkeyword.unique hat
      exact ⟨_, _, hitems, rfl, rfl⟩
  · intro hbehind
    cases keyword with
    | objective sense => exact hbehind.elim
    | finish => exact hbehind.elim
    | subjectTo =>
        obtain ⟨rows, _, hrows, rfl, rfl⟩ := hbehind
        exact .rows hkeyword hrows
    | bounds =>
        obtain ⟨bounds, _, hbounds, rfl, rfl⟩ := hbehind
        exact .bounds hkeyword hbounds
    | generals =>
        obtain ⟨names, _, hnames, rfl, rfl⟩ := hbehind
        exact .generals hkeyword hnames
    | binaries =>
        obtain ⟨names, _, hnames, rfl, rfl⟩ := hbehind
        exact .binaries hkeyword hnames

theorem SectionAt.exists_keywordAt {c d : Cursor} {found : Part} (h : SectionAt c found d) :
    ∃ keyword e, KeywordAt c keyword e := by
  cases h with
  | rows hkeyword _ => exact ⟨_, _, hkeyword⟩
  | bounds hkeyword _ => exact ⟨_, _, hkeyword⟩
  | generals hkeyword _ => exact ⟨_, _, hkeyword⟩
  | binaries hkeyword _ => exact ⟨_, _, hkeyword⟩

/-- A section is read as it is derived, unless it is the end of the document. -/
theorem recognises_part {c : Cursor} (hgoes : ¬EndsDocument c) :
    Recognises part Part.bare SectionAt c := by
  intro found d
  rw [part]
  cases hkeyword : c.keyword? with
  | none =>
      constructor
      · rintro ⟨_, hok, -⟩
        cases hok
      · intro hsection
        obtain ⟨keyword, e, hat⟩ := hsection.exists_keywordAt
        cases hkeyword.symm.trans hat.keyword?_eq
  | some opened =>
      obtain ⟨keyword, e⟩ := opened
      have hat := keywordAt_of_keyword? hkeyword
      rw [sectionAt_iff hat]
      cases keyword with
      | objective sense =>
          refine ⟨?_, False.elim⟩
          rintro ⟨_, hok, -⟩
          cases hok
      | finish => exact absurd (.inr ⟨e, hat⟩) hgoes
      | subjectTo =>
          exact (recognises_rows e).wrapped Part.rows Part.rows (fun _ => rfl) _ _
      | bounds =>
          exact (recognises_bounds e).wrapped Part.bounds Part.bounds (fun _ => rfl) _ _
      | generals =>
          exact (recognises_names e).wrapped Part.generals Part.generals (fun _ => rfl) _ _
      | binaries =>
          exact (recognises_names e).wrapped Part.binaries Part.binaries (fun _ => rfl) _ _

/-! ## Documents -/

/-- What an objective is behind its label. -/
def objectiveBehindLabel (sense : Sense) (label : Option String) : Form ObjectiveSection :=
  .andThen ExprAt fun expr => .only ⟨⟨0, 0⟩, sense, label, expr⟩

theorem recognises_objectiveBehind (start : Nat) (sense : Sense) (c : Cursor) :
    Recognises (behindLabel (objectiveOfLabel start sense)) ObjectiveSection.bare
      (.andThen LabelAt (objectiveBehindLabel sense)) c := by
  refine recognises_behindLabel (fun label e => ?_) (fun _ => skips_andThen skips_expr) ?_ c
  · exact (recognises_expr e).andThen fun _ _ => recognises_placed (fun _ => rfl) _
  · rintro label c y d name e ⟨_, _, hexpr, -⟩
    exact hexpr.not_labelAt

theorem objectiveAt_iff {c last : Cursor} {objective : ObjectiveSection} :
    ObjectiveAt c objective last ↔ ∃ sense d, KeywordAt c.skipNewlines (.objective sense) d ∧
      Form.andThen LabelAt (objectiveBehindLabel sense) d objective last := by
  constructor
  · rintro ⟨hbreaks, hkeyword, hlabel, hexpr⟩
    obtain rfl := breaks_iff.mp hbreaks
    exact ⟨_, _, hkeyword, _, _, hlabel, _, _, hexpr, rfl, rfl⟩
  · rintro ⟨_, _, hkeyword, _, _, hlabel, _, _, hexpr, rfl, rfl⟩
    exact .objective (breaks_skipNewlines c) hkeyword hlabel hexpr

theorem recognises_objectiveSection (c : Cursor) :
    Recognises objectiveSection ObjectiveSection.bare ObjectiveAt c := by
  intro objective last
  rw [objectiveSection, objectiveAt_iff]
  cases hkeyword : c.skipNewlines.keyword? with
  | none =>
      constructor
      · rintro ⟨_, hok, -⟩
        dsimp only at hok
        split at hok <;> cases hok
      · rintro ⟨sense, d, hat, -⟩
        cases hkeyword.symm.trans hat.keyword?_eq
  | some opened =>
      obtain ⟨keyword, d⟩ := opened
      have hat := keywordAt_of_keyword? hkeyword
      cases keyword with
      | objective sense =>
          refine (recognises_objectiveBehind c.skipNewlines.span.start sense d objective last).trans
            ⟨fun hbehind => ⟨sense, d, hat, hbehind⟩, ?_⟩
          rintro ⟨sense', d', hat', hbehind⟩
          obtain ⟨hsense, rfl⟩ := hat.unique hat'
          cases hsense
          exact hbehind
      | _ =>
          constructor
          · rintro ⟨_, hok, -⟩
            cases hok
          · rintro ⟨sense, d', hat', -⟩
            cases (hat.unique hat').1

theorem recognises_parts (c : Cursor) :
    Recognises (manyUntil atDocumentEnd part part_shortens) (List.map Part.bare)
      (Many EndsDocument SectionAt) c :=
  recognises_manyUntil endsDocument_iff recognises_part c

/-- What is read behind a position is what the grammar derives there. -/
theorem sectionsFrom_iff_derives (signature : Option String) (c : Cursor) (document : Document) :
    (∃ parsed, Document.sectionsFrom signature c = .ok parsed ∧
      { parsed.bare with signature := none } = document) ↔ Derives c document := by
  constructor
  · rintro ⟨parsed, hok, rfl⟩
    obtain ⟨⟨objective, d⟩, hobjective, hok⟩ := bind_eq_ok_iff.mp hok
    obtain ⟨⟨parts, last⟩, hparts, hok⟩ := bind_eq_ok_iff.mp hok
    obtain rfl := Except.ok.inj hok
    rw [← Document.ofParts_map_bare]
    exact .document ((recognises_objectiveSection c _ _).mp ⟨objective, hobjective, rfl⟩)
      ((recognises_parts d _ _).mp ⟨parts, hparts, rfl⟩)
  · rintro ⟨hderived, hsections⟩
    obtain ⟨objective, hobjective, rfl⟩ := (recognises_objectiveSection _ _ _).mpr hderived
    obtain ⟨parts, hparts, rfl⟩ := (recognises_parts _ _ _).mpr hsections
    refine ⟨.ofParts signature objective parts, ?_, ?_⟩
    · rw [Document.sectionsFrom, hobjective, ok_bind]
      dsimp only
      rw [hparts]
      rfl
    · rw [← Document.ofParts_map_bare]
      rfl

/-- Tokens spell one document at most. -/
theorem Derives.unique {c : Cursor} {document document' : Document} (h : Derives c document)
    (h' : Derives c document') : document = document' := by
  obtain ⟨parsed, hok, rfl⟩ := (sectionsFrom_iff_derives none c document).mpr h
  obtain ⟨parsed', hok', rfl⟩ := (sectionsFrom_iff_derives none c document').mpr h'
  rw [Except.ok.inj (hok.symm.trans hok')]

end Grammar

namespace Document

/--
A text is read as a document exactly if the grammar derives this document from its tokens,
places and the signature apart; and every number token denotes a number.
-/
theorem parse_iff_derives (source : String) :
    (∀ document, (∃ parsed, parse source = .ok parsed ∧
        { parsed.bare with signature := none } = document) ↔
      Grammar.Derives (Cursor.ofTokens (Token.scan source)) document) ∧
    ∀ token ∈ Token.scan source, token.kind = .number →
      ∃ value, Grammar.IsNumber token value := by
  constructor
  · intro document
    rw [parse, ofTokens_eq]
    exact Grammar.sectionsFrom_iff_derives _ _ _
  · intro token hmem hkind
    obtain ⟨value, hvalue⟩ := Token.exists_value_of_mem_scan hmem hkind
    exact ⟨value, hkind, hvalue⟩

/-- A sum that goes on behind a break, a row labelled with a keyword, and two-sided bounds. -/
def labelledEnd : String :=
  "Min\n 2 x\n + -\n y + 2 - -1\nSuch That\n End: x - -3 >= 1\n" ++
    "Bounds\n -1 <= x <= 2\n y >= - 3\nEND\nx"

def twoUnits : Binary64 :=
  .one + .one

def threeUnits : Binary64 :=
  twoUnits + .one

theorem exists_derives_labelledEnd :
    ∃ document, Grammar.Derives (Cursor.ofTokens (Token.scan labelledEnd)) document ∧
      document.objective.expr.terms.map (fun term => (term.name, term.coefficient)) =
        [("x", twoUnits), ("y", -.one)] ∧
      document.objective.expr.constant = threeUnits ∧
      document.rows.map (fun row => (row.label, row.expr.constant, row.rhs)) =
        [(some "End", threeUnits, .one)] ∧
      document.bounds.map (fun statement => (statement.name, statement.lower, statement.upper)) =
        [("x", some (-.one), some twoUnits), ("y", some (-threeUnits), none)] := by
  have hread : ∃ parsed, (parse labelledEnd).toOption = some parsed ∧
      parsed.bare.objective.expr.terms.map (fun term => (term.name, term.coefficient)) =
        [("x", twoUnits), ("y", -.one)] ∧
      parsed.bare.objective.expr.constant = threeUnits ∧
      parsed.bare.rows.map (fun row => (row.label, row.expr.constant, row.rhs)) =
        [(some "End", threeUnits, .one)] ∧
      parsed.bare.bounds.map (fun statement =>
          (statement.name, statement.lower, statement.upper)) =
        [("x", some (-.one), some twoUnits), ("y", some (-threeUnits), none)] := by
    decide +kernel
  obtain ⟨parsed, hparsed, hfacts⟩ := hread
  have hok := Reader.eq_ok_of_toOption_eq_some hparsed
  exact ⟨_, ((parse_iff_derives labelledEnd).1 _).mp ⟨parsed, hok, rfl⟩, hfacts⟩

end Document

end LinearProgram
