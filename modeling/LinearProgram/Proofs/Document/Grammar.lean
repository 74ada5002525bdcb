import LinearProgram.Proofs.Document.Alike

/-!
# The grammar of documents

What tokens spell, as derivations and not as an algorithm.  A form relates the position
where something begins, what it is, and the position behind it; places are left out.
Line breaks may stand before every item and behind every sign of a term.  Everything else
that a form says of tokens is said of adjacent ones.

The forms that exclude something are few.  Items of a list are read on until a position
that stops the list.  A number is lone only if no name follows it.  A bound statement
begins with a number if its first word can be read as one, and it has a second relation
if one follows on the same line.  Keywords and what stops a form are shown to be what the
reading positions tell; the forms themselves are compared with the parsers elsewhere.
-/

namespace LinearProgram

/-- The sign that a relation is written with. -/
def Relation.sign : Relation → TokenKind
  | .le => .le
  | .ge => .ge
  | .eq => .eq

namespace Grammar

open Reader

/-- Where something begins, what it is, and where it ends. -/
abbrev Form (α : Type) := Cursor → α → Cursor → Prop

/-- All the line breaks that come next. -/
inductive Breaks : Cursor → Cursor → Prop
  | stay {c : Cursor} (hkind : c.kind ≠ .newline) : Breaks c c
  | line {previous : Option Token} {token : Token} {tokens : List Token} {d : Cursor}
      (hkind : token.kind = .newline) (hlater : Breaks ⟨some token, tokens⟩ d) :
      Breaks ⟨previous, token :: tokens⟩ d

theorem breaks_skipNewlines (c : Cursor) : Breaks c c.skipNewlines := by
  obtain ⟨previous, tokens⟩ := c
  induction tokens generalizing previous with
  | nil => exact .stay TokenKind.noConfusion
  | cons token tokens ih =>
      by_cases hkind : token.kind = .newline
      · rw [Cursor.skipNewlines_line hkind]
        exact .line hkind (ih (some token))
      · rw [Cursor.skipNewlines_cons hkind]
        exact .stay hkind

theorem breaks_iff {c d : Cursor} : Breaks c d ↔ d = c.skipNewlines := by
  constructor
  · intro h
    induction h with
    | stay hkind => exact (Cursor.skipNewlines_of_ne hkind).symm
    | line hkind hlater ih => rw [Cursor.skipNewlines_line hkind, ih]
  · rintro rfl
    exact breaks_skipNewlines c

/-! ## Where things stop -/

/-- What is read next begins a line. -/
def StartsLine (previous : Option Token) : Prop :=
  ∀ token ∈ previous, token.kind = .newline

/-- A section keyword: one word that no colon follows, or two, at the start of a line. -/
inductive KeywordAt : Form SectionKeyword
  | oneWord {previous : Option Token} {first : Token} {tokens : List Token}
      {keyword : SectionKeyword} (hline : StartsLine previous) (hfirst : first.kind = .ident)
      (hcolon : (Cursor.mk (some first) tokens).kind ≠ .colon)
      (hword : SectionKeyword.ofWord? (asciiLower first.text) = some keyword) :
      KeywordAt ⟨previous, first :: tokens⟩ keyword ⟨some first, tokens⟩
  | twoWords {previous : Option Token} {first second : Token} {tokens : List Token}
      {keyword : SectionKeyword} (hline : StartsLine previous) (hfirst : first.kind = .ident)
      (hsecond : second.kind = .ident)
      (hwords : SectionKeyword.ofWords? (asciiLower first.text) (asciiLower second.text) =
        some keyword) :
      KeywordAt ⟨previous, first :: second :: tokens⟩ keyword ⟨some second, tokens⟩

theorem startsLine_iff {c : Cursor} : StartsLine c.previous ↔ c.atLineStart = true := by
  obtain ⟨_ | token, tokens⟩ := c <;> simp [StartsLine, Cursor.atLineStart]

theorem ofWord?_eq_none_of_ofWords? {first second : String} {keyword : SectionKeyword}
    (h : SectionKeyword.ofWords? first second = some keyword) :
    SectionKeyword.ofWord? first = none := by
  unfold SectionKeyword.ofWords? at h
  split at h
  · rfl
  · rfl
  · cases h

theorem KeywordAt.keyword?_eq {c d : Cursor} {keyword : SectionKeyword}
    (h : KeywordAt c keyword d) : c.keyword? = some (keyword, d) := by
  cases h with
  | @oneWord previous first tokens _ hline hfirst hcolon hword =>
      have hone : Cursor.oneWord? first = some keyword := by
        rw [Cursor.oneWord?, if_pos hfirst, hword]
      rw [Cursor.keyword?, if_pos (startsLine_iff.mp hline)]
      cases tokens with
      | nil => rw [Cursor.keywordOf?, hone, Option.map_some]
      | cons second later =>
          have htwo : Cursor.twoWords? first second = none := by
            rw [Cursor.twoWords?]
            split
            · by_contra hsome
              obtain ⟨other, hother⟩ := Option.ne_none_iff_exists'.mp hsome
              exact Option.some_ne_none _ (hword.symm.trans (ofWord?_eq_none_of_ofWords? hother))
            · rfl
          have hsecond : second.kind ≠ .colon := hcolon
          rw [Cursor.keywordOf?, if_neg hsecond, htwo, hone, Option.map_some]
  | @twoWords previous first second tokens _ hline hfirst hsecond hwords =>
      have htwo : Cursor.twoWords? first second = some keyword := by
        rw [Cursor.twoWords?, if_pos ⟨hfirst, hsecond⟩, hwords]
      have hcolon : second.kind ≠ .colon := by simp [hsecond]
      rw [Cursor.keyword?, if_pos (startsLine_iff.mp hline), Cursor.keywordOf?, if_neg hcolon, htwo]

theorem keywordAt_of_oneWord? {previous : Option Token} {first : Token} {tokens : List Token}
    {keyword : SectionKeyword} (hline : StartsLine previous)
    (hcolon : (Cursor.mk (some first) tokens).kind ≠ .colon)
    (h : Cursor.oneWord? first = some keyword) :
    KeywordAt ⟨previous, first :: tokens⟩ keyword ⟨some first, tokens⟩ := by
  rw [Cursor.oneWord?] at h
  split at h
  · next hfirst => exact .oneWord hline hfirst hcolon h
  · cases h

theorem keywordAt_of_keyword? {c d : Cursor} {keyword : SectionKeyword}
    (h : c.keyword? = some (keyword, d)) : KeywordAt c keyword d := by
  rw [Cursor.keyword?] at h
  by_cases hstart : c.atLineStart = true
  · have hline := startsLine_iff.mpr hstart
    rw [if_pos hstart] at h
    obtain ⟨previous, _ | ⟨first, _ | ⟨second, later⟩⟩⟩ := c
    · cases h
    · obtain ⟨word, hone, heq⟩ := Option.map_eq_some_iff.mp h
      obtain ⟨rfl, rfl⟩ := Prod.mk.inj heq
      exact keywordAt_of_oneWord? hline TokenKind.noConfusion hone
    · dsimp only at h hline
      rw [Cursor.keywordOf?] at h
      by_cases hcolon : second.kind = .colon
      · rw [if_pos hcolon] at h
        cases h
      rw [if_neg hcolon] at h
      cases htwo : Cursor.twoWords? first second with
      | some word =>
          rw [htwo] at h
          obtain ⟨rfl, rfl⟩ := Prod.mk.inj (Option.some.inj h)
          rw [Cursor.twoWords?] at htwo
          split at htwo
          · next hkinds => exact .twoWords hline hkinds.1 hkinds.2 htwo
          · cases htwo
      | none =>
          rw [htwo] at h
          obtain ⟨word, hone, heq⟩ := Option.map_eq_some_iff.mp h
          obtain ⟨rfl, rfl⟩ := Prod.mk.inj heq
          exact keywordAt_of_oneWord? hline hcolon hone
  · rw [if_neg hstart] at h
    cases h

theorem keywordAt_iff {c d : Cursor} {keyword : SectionKeyword} :
    KeywordAt c keyword d ↔ c.keyword? = some (keyword, d) :=
  ⟨KeywordAt.keyword?_eq, keywordAt_of_keyword?⟩

theorem KeywordAt.unique {c d d' : Cursor} {keyword keyword' : SectionKeyword}
    (h : KeywordAt c keyword d) (h' : KeywordAt c keyword' d') : keyword = keyword' ∧ d = d' :=
  Prod.mk.inj (Option.some.inj (h.keyword?_eq.symm.trans h'.keyword?_eq))

theorem KeywordAt.kind {c d : Cursor} {keyword : SectionKeyword} (h : KeywordAt c keyword d) :
    c.kind = .ident := by
  cases h with
  | oneWord _ hfirst _ _ => exact hfirst
  | twoWords _ hfirst _ _ => exact hfirst

theorem not_keywordAt_of_colon {previous : Option Token} {first colon : Token}
    {tokens : List Token} (hcolon : colon.kind = .colon) {keyword : SectionKeyword} {d : Cursor} :
    ¬KeywordAt ⟨previous, first :: colon :: tokens⟩ keyword d := by
  intro h
  cases h with
  | oneWord _ _ hnot _ => exact hnot hcolon
  | twoWords _ _ hsecond _ => cases hcolon.symm.trans hsecond

/-- The end of a section: that of the input, or the keyword of another one. -/
def EndsBlock (c : Cursor) : Prop :=
  c.rest = [] ∨ ∃ keyword d, KeywordAt c keyword d

/-- The end of a document: that of the input, or the keyword that says so. -/
def EndsDocument (c : Cursor) : Prop :=
  c.rest = [] ∨ ∃ d, KeywordAt c .finish d

def AtRelationSign (c : Cursor) : Prop :=
  ∃ relation : Relation, c.kind = relation.sign

def AtSign (c : Cursor) : Prop :=
  c.kind = .plus ∨ c.kind = .minus

/-- What stops an expression. -/
def StopsExpr (c : Cursor) : Prop :=
  AtRelationSign c ∨ EndsBlock c

theorem endsBlock_iff {c : Cursor} : EndsBlock c ↔ c.atBlockEnd = true := by
  rw [EndsBlock, Cursor.atBlockEnd, Bool.or_eq_true, List.isEmpty_iff, Option.isSome_iff_exists,
    Prod.exists]
  simp only [keywordAt_iff]

theorem endsDocument_iff {c : Cursor} : EndsDocument c ↔ atDocumentEnd c = true := by
  rw [EndsDocument, atDocumentEnd, Bool.or_eq_true, List.isEmpty_iff, decide_eq_true_eq,
    Option.map_eq_some_iff, Prod.exists]
  simp [keywordAt_iff]

theorem atRelationSign_iff {c : Cursor} : AtRelationSign c ↔ c.atRelation = true := by
  rw [Cursor.atRelation, Bool.or_eq_true, Bool.or_eq_true, decide_eq_true_eq, decide_eq_true_eq,
    decide_eq_true_eq]
  constructor
  · rintro ⟨_ | _ | _, hkind⟩
    · exact .inl (.inl hkind)
    · exact .inl (.inr hkind)
    · exact .inr hkind
  · rintro ((hkind | hkind) | hkind)
    · exact ⟨.le, hkind⟩
    · exact ⟨.ge, hkind⟩
    · exact ⟨.eq, hkind⟩

theorem atSign_iff {c : Cursor} : AtSign c ↔ c.atSign = true := by
  rw [AtSign, Cursor.atSign, Bool.or_eq_true, decide_eq_true_eq, decide_eq_true_eq]

theorem stopsExpr_iff {c : Cursor} : StopsExpr c ↔ atExprEnd c = true := by
  rw [StopsExpr, atExprEnd, Bool.or_eq_true, atRelationSign_iff, endsBlock_iff]

theorem not_stopsExpr {previous : Option Token} {first : Token} {tokens : List Token}
    (hrelation : ∀ relation : Relation, first.kind ≠ relation.sign)
    (hkeyword : ∀ keyword d, ¬KeywordAt ⟨previous, first :: tokens⟩ keyword d) :
    ¬StopsExpr ⟨previous, first :: tokens⟩ := by
  rintro (⟨relation, hsign⟩ | hempty | ⟨keyword, d, hat⟩)
  · exact hrelation relation hsign
  · cases hempty
  · exact hkeyword keyword d hat

/-- Items, with line breaks anywhere between, up to the first position that stops them. -/
inductive Many {α : Type} (stops : Cursor → Prop) (item : Form α) : Form (List α)
  | done {c d : Cursor} (hbreaks : Breaks c d) (hstops : stops d) : Many stops item c [] d
  | step {c d e last : Cursor} {x : α} {xs : List α} (hbreaks : Breaks c d) (hgoes : ¬stops d)
      (hitem : item d x e) (hlater : Many stops item e xs last) :
      Many stops item c (x :: xs) last

/-! ## Words, relations and values -/

/-- A name, behind line breaks. -/
inductive NameAt : Form String
  | name {c : Cursor} {previous : Option Token} {token : Token} {tokens : List Token}
      (hbreaks : Breaks c ⟨previous, token :: tokens⟩) (hkind : token.kind = .ident) :
      NameAt c token.text ⟨some token, tokens⟩

/-- An optional label. -/
inductive LabelAt : Form (Option String)
  | absent {c : Cursor} : LabelAt c none c
  | named {c : Cursor} {previous : Option Token} {name colon : Token} {tokens : List Token}
      (hbreaks : Breaks c ⟨previous, name :: colon :: tokens⟩) (hname : name.kind = .ident)
      (hcolon : colon.kind = .colon) : LabelAt c (some name.text) ⟨some colon, tokens⟩

inductive RelationAt : Form Relation
  | relation {c : Cursor} {previous : Option Token} {token : Token} {tokens : List Token}
      {relation : Relation} (hbreaks : Breaks c ⟨previous, token :: tokens⟩)
      (hkind : token.kind = relation.sign) : RelationAt c relation ⟨some token, tokens⟩

/-- Any number of signs, with a gap behind each; two that are negative cancel out. -/
inductive SignsAt (gap : Cursor → Cursor → Prop) : Form Bool
  | none {c : Cursor} : SignsAt gap c false c
  | plus {previous : Option Token} {token : Token} {tokens : List Token} {d e : Cursor}
      {negative : Bool} (hkind : token.kind = .plus) (hgap : gap ⟨some token, tokens⟩ d)
      (hlater : SignsAt gap d negative e) : SignsAt gap ⟨previous, token :: tokens⟩ negative e
  | minus {previous : Option Token} {token : Token} {tokens : List Token} {d e : Cursor}
      {negative : Bool} (hkind : token.kind = .minus) (hgap : gap ⟨some token, tokens⟩ d)
      (hlater : SignsAt gap d negative e) : SignsAt gap ⟨previous, token :: tokens⟩ (!negative) e

/-- A number token, and the number that its text denotes. -/
structure IsNumber (token : Token) (value : Binary64) : Prop where
  kind : token.kind = .number
  value : Binary64.ofNumeral? token.text.toList = some value

/-- A number token or a word for infinity, and what it denotes. -/
inductive Denotes : Token → Binary64 → Prop
  | number {token : Token} {value : Binary64} (hnumber : IsNumber token value) :
      Denotes token value
  | infinity {token : Token} (hword : isInfinityWord token = true) :
      Denotes token (.infinity false)

/-- A value behind line breaks, its signs on the same line. -/
inductive ValueAt : Form Binary64
  | value {c d : Cursor} {previous : Option Token} {token : Token} {tokens : List Token}
      {negative : Bool} {value : Binary64} (hbreaks : Breaks c d)
      (hsigns : SignsAt Eq d negative ⟨previous, token :: tokens⟩)
      (hvalue : Denotes token value) : ValueAt c (applySign negative value) ⟨some token, tokens⟩

/-! ## Expressions -/

/-- What stands behind the signs of a term. -/
inductive OperandAt (negative : Bool) : Form Summand
  | scaled {previous : Option Token} {number name : Token} {tokens : List Token}
      {value : Binary64} (hnumber : IsNumber number value) (hname : name.kind = .ident) :
      OperandAt negative ⟨previous, number :: name :: tokens⟩
        (.term ⟨⟨0, 0⟩, applySign negative value, name.text⟩) ⟨some name, tokens⟩
  | lone {previous : Option Token} {number : Token} {tokens : List Token} {value : Binary64}
      (hnumber : IsNumber number value)
      (hlone : (Cursor.mk (some number) tokens).kind ≠ .ident) :
      OperandAt negative ⟨previous, number :: tokens⟩
        (.constant (applySign negative value)) ⟨some number, tokens⟩
  | plain {previous : Option Token} {name : Token} {tokens : List Token}
      (hname : name.kind = .ident) :
      OperandAt negative ⟨previous, name :: tokens⟩
        (.term ⟨⟨0, 0⟩, applySign negative .one, name.text⟩) ⟨some name, tokens⟩

/-- A term, which must have a sign if told so. -/
inductive TermAt (mustSign : Bool) : Form Summand
  | term {c d e : Cursor} {negative : Bool} {summand : Summand}
      (hmust : mustSign = true → AtSign c) (hsigns : SignsAt Breaks c negative d)
      (hoperand : OperandAt negative d summand e) : TermAt mustSign c summand e

/-- An expression: nothing, or terms of which all but the first must have a sign. -/
inductive ExprAt : Form WrittenExpr
  | empty {c d : Cursor} (hbreaks : Breaks c d) (hstops : StopsExpr d) : ExprAt c (exprOf []) d
  | terms {c d e last : Cursor} {first : Summand} {later : List Summand} (hbreaks : Breaks c d)
      (hgoes : ¬StopsExpr d) (hfirst : TermAt false d first e)
      (hlater : Many StopsExpr (TermAt true) e later last) :
      ExprAt c (exprOf (first :: later)) last

/-! ## Rows and bounds -/

inductive RowAt : Form Row
  | row {c d e f last : Cursor} {label : Option String} {expr : WrittenExpr}
      {relation : Relation} {rhs : Binary64} (hlabel : LabelAt c label d)
      (hexpr : ExprAt d expr e) (hrelation : RelationAt e relation f)
      (hrhs : ValueAt f rhs last) : RowAt c ⟨⟨0, 0⟩, label, expr, relation, rhs⟩ last

/-- A bound statement begins with a number, a sign, or a word for infinity before a relation. -/
inductive BeginsWithValue : Cursor → Prop
  | number {c : Cursor} (hkind : c.kind = .number) : BeginsWithValue c
  | sign {c : Cursor} (hsign : AtSign c) : BeginsWithValue c
  | infinity {previous : Option Token} {token : Token} {tokens : List Token}
      (hword : isInfinityWord token = true)
      (hrelation : AtRelationSign ⟨some token, tokens⟩) :
      BeginsWithValue ⟨previous, token :: tokens⟩

/-- The statement that some sides bound a variable. -/
def bounded (name : String) (sides : Option Binary64 × Option Binary64) : BoundStatement :=
  ⟨⟨0, 0⟩, name, sides.1, sides.2⟩

/-- The word that makes a variable free. -/
def FreeAt (c d : Cursor) : Prop :=
  ∃ previous word tokens, c = ⟨previous, word :: tokens⟩ ∧ word.kind = .ident ∧
    asciiLower word.text = "free" ∧ d = ⟨some word, tokens⟩

inductive BoundAt : Form BoundStatement
  | oneSided {c d e last : Cursor} {value : Binary64} {relation : Relation} {name : String}
      (hbegins : BeginsWithValue c) (hvalue : ValueAt c value d)
      (hrelation : RelationAt d relation e) (hname : NameAt e name last)
      (hends : ¬AtRelationSign last) :
      BoundAt c (bounded name (sidesOf relation.flip value)) last
  | twoSided {c d e f g last : Cursor} {value value' : Binary64} {relation relation' : Relation}
      {name : String} (hbegins : BeginsWithValue c) (hvalue : ValueAt c value d)
      (hrelation : RelationAt d relation e) (hname : NameAt e name f)
      (hgoes : AtRelationSign f) (hrelation' : RelationAt f relation' g)
      (hvalue' : ValueAt g value' last) :
      BoundAt c
        (bounded name (overSides (sidesOf relation' value') (sidesOf relation.flip value))) last
  | free {c d last : Cursor} {name : String} (hkind : c.kind = .ident)
      (hbegins : ¬BeginsWithValue c) (hname : NameAt c name d) (hfree : FreeAt d last) :
      BoundAt c (bounded name (some (.infinity true), some (.infinity false))) last
  | nameFirst {c d e last : Cursor} {name : String} {relation : Relation} {value : Binary64}
      (hkind : c.kind = .ident) (hbegins : ¬BeginsWithValue c) (hname : NameAt c name d)
      (hrelation : RelationAt d relation e) (hvalue : ValueAt e value last) :
      BoundAt c (bounded name (sidesOf relation value)) last

/-! ## Documents -/

/-- A section behind the objective. -/
inductive SectionAt : Form Part
  | rows {c d last : Cursor} {rows : List Row} (hkeyword : KeywordAt c .subjectTo d)
      (hrows : Many EndsBlock RowAt d rows last) : SectionAt c (.rows rows) last
  | bounds {c d last : Cursor} {bounds : List BoundStatement} (hkeyword : KeywordAt c .bounds d)
      (hbounds : Many EndsBlock BoundAt d bounds last) : SectionAt c (.bounds bounds) last
  | generals {c d last : Cursor} {names : List String} (hkeyword : KeywordAt c .generals d)
      (hnames : Many EndsBlock NameAt d names last) : SectionAt c (.generals names) last
  | binaries {c d last : Cursor} {names : List String} (hkeyword : KeywordAt c .binaries d)
      (hnames : Many EndsBlock NameAt d names last) : SectionAt c (.binaries names) last

inductive ObjectiveAt : Form ObjectiveSection
  | objective {c d e f last : Cursor} {sense : Sense} {label : Option String}
      {expr : WrittenExpr} (hbreaks : Breaks c d) (hkeyword : KeywordAt d (.objective sense) e)
      (hlabel : LabelAt e label f) (hexpr : ExprAt f expr last) :
      ObjectiveAt c ⟨⟨0, 0⟩, sense, label, expr⟩ last

/-- A document behind a position, apart from its signature. -/
inductive Derives : Cursor → Document → Prop
  | document {c d last : Cursor} {objective : ObjectiveSection} {parts : List Part}
      (hobjective : ObjectiveAt c objective d)
      (hparts : Many EndsDocument SectionAt d parts last) :
      Derives c (.ofParts none objective parts)

end Grammar

end LinearProgram
