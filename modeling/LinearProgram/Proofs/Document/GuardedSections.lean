import LinearProgram.Proofs.Document.Guarded

/-!
# Reading sections from alike positions

Rows, bound statements and sections are put together from parsers that read the same from
alike positions, so they do too.  Two documents read from alike positions differ at most
in what is kept of the signature, if the first one mentions only valid names.  The main
statement is `Document.sectionsFrom_of_alike`.
-/

namespace LinearProgram

open Token

namespace Cursor

theorem Alike.atRelation {c c' : Cursor} (h : c.Alike c') : c'.atRelation = c.atRelation := by
  have hle : c.kind = .le ↔ c'.kind = .le := h.rest.kind_eq_iff _ _ (by simp [Blind])
  have hge : c.kind = .ge ↔ c'.kind = .ge := h.rest.kind_eq_iff _ _ (by simp [Blind])
  have heq : c.kind = .eq ↔ c'.kind = .eq := h.rest.kind_eq_iff _ _ (by simp [Blind])
  rw [Cursor.atRelation, Cursor.atRelation, decide_eq_decide.mpr hle.symm,
    decide_eq_decide.mpr hge.symm, decide_eq_decide.mpr heq.symm]

end Cursor

namespace Reader

/-! ## Labels -/

theorem label?_skipNewlines (c : Cursor) : label? c.skipNewlines = label? c := by
  rw [label?, label?, Cursor.skipNewlines_skipNewlines]

theorem label?_of_barred {c : Cursor} (h : Barred c.rest) : label? c = (none, c) := by
  have hskip := Cursor.skipNewlines_of_barred h
  rw [label?_eq_none, hskip]
  rw [hskip]
  obtain ⟨previous, _ | ⟨token, tokens⟩⟩ := c
  · exact h.elim
  rcases h with hinvalid | ⟨-, hcolon⟩
  · exact .inl (by simp [hinvalid])
  · refine .inr ⟨token, tokens, rfl, fun hkind => hcolon ?_⟩
    cases tokens with
    | nil => exact nomatch hkind
    | cons next tokens => exact congrArg some hkind

theorem label?_colon {name colon : Token} (hname : name.kind = .ident)
    (hcolon : colon.kind = .colon) (previous : Option Token) (tokens : List Token) :
    label? ⟨previous, name :: colon :: tokens⟩ = (some name.text, ⟨some colon, tokens⟩) := by
  rw [label?, Cursor.skipNewlines_cons (by simp [hname])]
  exact if_pos ⟨hname, hcolon⟩

theorem label?_of_level {c c' : Cursor} (h : c.Level c') :
    (label? c').1 = (label? c).1 ∧ (label? c).2.Alike (label? c').2 := by
  have hlevel := h
  cases h with
  | ended hstop hstop' => exact ⟨rfl, hlevel.alike⟩
  | @next previous token tokens tokens' hkind hspan _ _ h =>
      by_cases hlabel : token.kind = .ident ∧ firstKind tokens = .colon
      · obtain ⟨hident, hcolon⟩ := hlabel
        obtain _ | ⟨colon, later⟩ := tokens
        · exact nomatch hcolon
        have hkindColon : colon.kind = .colon := hcolon
        have hne : colon.kind ≠ .newline := by simp [hkindColon]
        have hpasses : ¬Barred (colon :: later) := by
          intro hbarred
          rcases hbarred.kind_eq with hkind | hkind <;>
            exact nomatch hkindColon.symm.trans hkind
        cases ((Cursor.alike_some hspan h).barred_or_level rfl hne).resolve_left hpasses with
        | next _ hspanColon _ _ hlater =>
            rw [label?_colon hident hkindColon, label?_colon hident hkindColon]
            exact ⟨rfl, Cursor.alike_some hspanColon hlater⟩
      · have hiff : firstKind tokens = .colon ↔ firstKind tokens' = .colon :=
          h.kind_eq_iff none none (by simp [Blind])
        have hnone (later : List Token)
            (hbehind : firstKind later = .colon → firstKind tokens = .colon) :
            label? ⟨previous, token :: later⟩ = (none, ⟨previous, token :: later⟩) := by
          rw [label?_eq_none, Cursor.skipNewlines_cons hkind]
          rw [Cursor.skipNewlines_cons hkind]
          by_cases hident : token.kind = .ident
          · exact .inr ⟨token, later, rfl, fun hcolon => hlabel ⟨hident, hbehind hcolon⟩⟩
          · exact .inl hident
        rw [hnone tokens id, hnone tokens' hiff.mpr]
        exact ⟨rfl, hlevel.alike⟩

/-- Behind a label alike positions are alike, or the first one is barred. -/
theorem label?_of_alike {c c' : Cursor} (h : c.Alike c') :
    Barred (label? c).2.rest ∨
      (label? c').1 = (label? c).1 ∧ (label? c).2.Alike (label? c').2 := by
  rw [← label?_skipNewlines c, ← label?_skipNewlines c']
  rcases h.skipNewlines with hbarred | hlevel
  · rw [label?_of_barred hbarred]
    exact .inl hbarred
  · exact .inr (label?_of_level hlevel)

/-- A parser behind a label, which it is told. -/
def behindLabel (p : Option String → Reader α) : Reader α := fun c =>
  p (label? c).1 (label? c).2

theorem follows_behindLabel {p : Option String → Reader α} {names : α → List String}
    (hp : ∀ label, Follows (p label) names)
    (hrefuses : ∀ ⦃label c x d⦄, Barred c.rest → p label c = .ok (x, d) → ¬ValidNames (names x)) :
    Follows (behindLabel p) names := by
  intro c c' d x h hok hnames
  obtain ⟨hlabel, hbehind⟩ := (label?_of_alike h).resolve_left fun hbarred =>
    hrefuses hbarred hok hnames
  rw [behindLabel, hlabel]
  exact hp _ hbehind hok hnames

/-! ## Rows -/

def rowNames (written : Row) : List String :=
  exprNames written.expr

/-- The relation and the number behind the expression of a row. -/
def rowOf (start : Nat) (label : Option String) (sum : WrittenExpr) : Reader Row :=
  relation.andThen fun sign => value.andThen fun bound =>
    placed fun stop => ⟨⟨start, stop⟩, label, sum, sign, bound⟩

theorem row_eq (c : Cursor) :
    row c = behindLabel (fun label => expr.andThen (rowOf c.span.start label)) c :=
  rfl

section Rows

variable {start : Nat} {label : Option String} {c d : Cursor} {written : Row}

theorem rowOf_expr {sum : WrittenExpr} (hok : rowOf start label sum c = .ok (written, d)) :
    written.expr = sum := by
  obtain ⟨sign, e, -, hok⟩ := andThen_eq_ok_iff.mp hok
  obtain ⟨bound, e', -, hok⟩ := andThen_eq_ok_iff.mp hok
  obtain ⟨rfl, -⟩ := placed_eq_ok_iff.mp hok
  rfl

theorem follows_rowOf (sum : WrittenExpr) : Follows (rowOf start label sum) rowNames :=
  follows_relation.andThen_nil fun _ => follows_value.andThen_nil fun _ => follows_placed _

theorem follows_row_of_label : Follows (expr.andThen (rowOf start label)) rowNames := by
  refine follows_expr.andThen follows_rowOf fun sum c written d hok hnames => ?_
  rwa [rowNames, rowOf_expr hok] at hnames

theorem row_of_label_refuses (hbarred : Barred c.rest)
    (hok : expr.andThen (rowOf start label) c = .ok (written, d)) :
    ¬ValidNames (rowNames written) := by
  obtain ⟨sum, e, hsum, hok⟩ := andThen_eq_ok_iff.mp hok
  rw [rowNames, rowOf_expr hok]
  exact guarded_expr.refuses hbarred hsum

end Rows

theorem guarded_row : Guarded row rowNames := by
  constructor
  case refuses =>
    intro c written d hbarred hok
    rw [row_eq, behindLabel, label?_of_barred hbarred] at hok
    exact row_of_label_refuses hbarred hok
  case follows =>
    intro c c' written d hlevel hok hnames
    rw [row_eq] at hok ⊢
    rw [hlevel.span]
    exact follows_behindLabel (fun _ => follows_row_of_label)
      (fun _ _ _ _ => row_of_label_refuses) hlevel.alike hok hnames

/-! ## Bounds -/

def boundNames (written : BoundStatement) : List String :=
  [written.name]

/-- The statement that bounds a variable on some sides. -/
def bounding (start : Nat) (name : String) (sides : Option Binary64 × Option Binary64) :
    Reader BoundStatement :=
  placed fun stop => ⟨⟨start, stop⟩, name, sides.1, sides.2⟩

/-- The second relation and number of a bound statement, if they follow. -/
def outerBound (start : Nat) (name : String) (sides : Option Binary64 × Option Binary64) :
    Reader BoundStatement :=
  branch Cursor.atRelation
    (relation.andThen fun outer => value.andThen fun second =>
      bounding start name (overSides (sidesOf outer second) sides))
    (bounding start name sides)

/-- A relation and a number behind the variable that they bound. -/
def relatedBound (start : Nat) (name : String) : Reader BoundStatement :=
  relation.andThen fun sign => value.andThen fun bound =>
    bounding start name (sidesOf sign bound)

/-- What a bound statement says of the variable with which it begins. -/
def boundOfName (start : Nat) (name : String) : Reader BoundStatement :=
  branch atFree
    ((token .ident).andThen fun _ =>
      bounding start name (some (.infinity true), some (.infinity false)))
    (relatedBound start name)

theorem valueFirstBound_eq (start : Nat) :
    valueFirstBound start = value.andThen fun first => relation.andThen fun inner =>
      (token .ident).andThen fun name =>
        outerBound start name.text (sidesOf inner.flip first) :=
  rfl

theorem nameFirstBound_eq (start : Nat) :
    nameFirstBound start = (token .ident).andThen fun name => boundOfName start name.text :=
  rfl

section Bounds

variable {start : Nat} {name : String} {sides : Option Binary64 × Option Binary64}
  {c c' d : Cursor} {written : BoundStatement}

theorem bounding_name (hok : bounding start name sides c = .ok (written, d)) :
    written.name = name := by
  obtain ⟨rfl, -⟩ := placed_eq_ok_iff.mp hok
  rfl

theorem outerBound_name (hok : outerBound start name sides c = .ok (written, d)) :
    written.name = name := by
  rw [outerBound, branch] at hok
  split at hok
  · obtain ⟨outer, e, -, hok⟩ := andThen_eq_ok_iff.mp hok
    obtain ⟨second, e', -, hok⟩ := andThen_eq_ok_iff.mp hok
    exact bounding_name hok
  · exact bounding_name hok

theorem boundOfName_name (hok : boundOfName start name c = .ok (written, d)) :
    written.name = name := by
  rw [boundOfName, branch] at hok
  split at hok
  · obtain ⟨word, e, -, hok⟩ := andThen_eq_ok_iff.mp hok
    exact bounding_name hok
  · obtain ⟨sign, e, -, hok⟩ := andThen_eq_ok_iff.mp hok
    obtain ⟨bound, e', -, hok⟩ := andThen_eq_ok_iff.mp hok
    exact bounding_name hok

theorem follows_bounding : Follows (bounding start name sides) boundNames :=
  follows_placed _

theorem follows_outerBound : Follows (outerBound start name sides) boundNames := by
  refine Follows.branch ?_ follows_bounding fun _ _ h => h.atRelation
  exact follows_relation.andThen_nil fun _ => follows_value.andThen_nil fun _ => follows_bounding

theorem follows_relatedBound : Follows (relatedBound start name) boundNames :=
  follows_relation.andThen_nil fun _ => follows_value.andThen_nil fun _ => follows_bounding

/-! The word `free` is no bar, and it is seen without going over line breaks. -/

theorem atFree_eq_true_iff {previous : Option Token} {token : Token} {tokens : List Token} :
    atFree ⟨previous, token :: tokens⟩ = true ↔
      token.kind = .ident ∧ asciiLower token.text = "free" := by
  rw [atFree, Bool.and_eq_true, decide_eq_true_eq, decide_eq_true_eq]

theorem atFree_of_barred (h : Barred c.rest) : atFree c = false := by
  obtain ⟨previous, _ | ⟨token, tokens⟩⟩ := c
  · exact h.elim
  rw [Bool.eq_false_iff, Ne, atFree_eq_true_iff]
  rintro ⟨hident, hfree⟩
  rcases h with hinvalid | ⟨hopen, -⟩
  · exact nomatch hident.symm.trans hinvalid
  · exact hopen.unreserved (by rw [hfree]; decide)

theorem level_of_atFree (h : c.Alike c') (hfree : atFree c = true) : c.Level c' := by
  obtain ⟨previous, _ | ⟨token, tokens⟩⟩ := c
  · cases hfree
  obtain ⟨hident, -⟩ := atFree_eq_true_iff.mp hfree
  refine (h.barred_or_level rfl (by simp [hident])).resolve_left fun hbarred => ?_
  exact Bool.false_ne_true ((atFree_of_barred hbarred).symm.trans hfree)

theorem atFree_of_level (h : c.Level c') : atFree c' = atFree c := by
  cases h <;> rfl

theorem atFree_of_breaks {tokens : List Token} (h : ∀ next ∈ tokens.head?, next = newline)
    (previous : Option Token) : atFree ⟨previous, tokens⟩ = false := by
  cases tokens with
  | nil => rfl
  | cons token tokens =>
      rw [h token rfl]
      rfl

theorem atFree_of_alike (h : c.Alike c') (hfree : atFree c = false) : atFree c' = false := by
  obtain ⟨previous, tokens⟩ := c
  obtain ⟨previous', tokens'⟩ := c'
  have halike : Token.Alike tokens tokens' := h.rest
  cases halike with
  | ended hbreaks =>
      exact atFree_of_breaks (fun next hnext => hbreaks next (List.mem_of_head? hnext)) previous'
  | stray hkind tokens hbreak => exact atFree_of_breaks hbreak previous'
  | unclosed hopen hopen' hcolon hcolon' => exact atFree_of_barred (.inr ⟨hopen', hcolon'⟩)
  | line hbarred tokens' => rfl
  | cons hspan hlater => exact hfree

theorem follows_boundOfName : Follows (boundOfName start name) boundNames := by
  intro c c' d written h hok hnames
  rw [boundOfName, branch] at hok ⊢
  by_cases hfree : atFree c = true
  · have hlevel := level_of_atFree h hfree
    rw [if_pos hfree] at hok
    rw [if_pos ((atFree_of_level hlevel).trans hfree)]
    obtain ⟨word, e, hword, hok⟩ := andThen_eq_ok_iff.mp hok
    obtain ⟨e', hword', he⟩ := (takesOne_token .ident).of_level hlevel hword
    obtain ⟨d', hok', hd⟩ := follows_bounding he hok hnames
    exact ⟨d', andThen_eq_ok_iff.mpr ⟨word, e', hword', hok'⟩, hd⟩
  · rw [if_neg hfree] at hok
    rw [atFree_of_alike h (Bool.eq_false_iff.mpr hfree), if_neg Bool.false_ne_true]
    exact follows_relatedBound h hok hnames

theorem follows_valueFirstBound : Follows (valueFirstBound start) boundNames := by
  rw [valueFirstBound_eq]
  refine follows_value.andThen_nil fun first => follows_relation.andThen_nil fun inner => ?_
  refine follows_ident.andThen (fun name => follows_outerBound) ?_
  intro name c written d hok hnames
  rwa [boundNames, outerBound_name hok] at hnames

theorem follows_nameFirstBound : Follows (nameFirstBound start) boundNames := by
  rw [nameFirstBound_eq]
  refine follows_ident.andThen (fun name => follows_boundOfName) ?_
  intro name c written d hok hnames
  rwa [boundNames, boundOfName_name hok] at hnames

end Bounds

theorem isInfinityWord_of_barred {token : Token} {tokens : List Token}
    (h : Barred (token :: tokens)) : isInfinityWord token = false := by
  have hnone := valueOf?_of_barred h false
  by_contra hinfinity
  rw [Bool.not_eq_false] at hinfinity
  have hkind : token.kind ≠ .number := by rcases h.kind_eq with hkind | hkind <;> simp [hkind]
  rw [valueOf?, if_neg hkind, if_pos hinfinity] at hnone
  exact Option.some_ne_none _ hnone

theorem atBoundValue_of_barred {c : Cursor} (h : Barred c.rest) : atBoundValue c = false := by
  have hsign := atSign_of_barred h
  obtain ⟨previous, _ | ⟨token, tokens⟩⟩ := c
  · exact h.elim
  have hnumber : token.kind ≠ .number := by
    rcases Barred.kind_eq h with hkind | hkind <;> simp [hkind]
  rw [atBoundValue]
  dsimp only
  rw [hsign, isInfinityWord_of_barred h, decide_eq_false hnumber]
  rfl

theorem atBoundValue_of_level {c c' : Cursor} (h : c.Level c') :
    atBoundValue c' = atBoundValue c := by
  cases h with
  | ended _ _ => rfl
  | next hkind hspan _ _ h =>
      have hrelation := (Cursor.alike_some hspan h).atRelation
      rw [atBoundValue, atBoundValue]
      dsimp only
      rw [hrelation]
      rfl

theorem guarded_boundStatement : Guarded boundStatement boundNames := by
  constructor
  case refuses =>
    intro c written d hbarred hok hnames
    rw [boundStatement, atBoundValue_of_barred hbarred, if_neg Bool.false_ne_true] at hok
    split at hok
    · rw [nameFirstBound_eq] at hok
      obtain ⟨name, e, hname, hok⟩ := andThen_eq_ok_iff.mp hok
      rw [boundNames, boundOfName_name hok] at hnames
      exact guarded_ident.refuses hbarred hname hnames
    · cases hok
  case follows =>
    intro c c' written d hlevel hok hnames
    rw [boundStatement, atBoundValue_of_level hlevel, hlevel.kind, hlevel.span]
    rw [boundStatement] at hok
    by_cases hat : atBoundValue c = true
    · rw [if_pos hat] at hok ⊢
      exact follows_valueFirstBound hlevel.alike hok hnames
    rw [if_neg hat] at hok ⊢
    by_cases hident : c.kind = .ident
    · rw [if_pos hident] at hok ⊢
      exact follows_nameFirstBound hlevel.alike hok hnames
    · rw [if_neg hident] at hok
      cases hok

/-! ## Sections -/

theorem names_eq :
    names = (manyUntil Cursor.atBlockEnd (token .ident) (token_shortens .ident)).andThen
      fun tokens => placed fun _ => tokens.map Token.text :=
  rfl

theorem follows_names : Follows names id := by
  rw [names_eq]
  exact (follows_manyUntil steady_atBlockEnd guarded_ident).map fun _ => List.map_eq_flatMap

/-- The names of variables in a section. -/
def Part.names : Part → List String
  | .rows items => items.flatMap rowNames
  | .bounds items => items.flatMap boundNames
  | .generals items => items
  | .binaries items => items

theorem guarded_part : Guarded part Part.names := by
  constructor
  case refuses =>
    intro c found d hbarred hok
    rw [part, Cursor.keyword?_of_barred hbarred] at hok
    cases hok
  case follows =>
    intro c c' found d hlevel hok hnames
    rcases hlevel.sameKeyword with ⟨hnone, -⟩ | ⟨word, e, e', hsome, hsome', he⟩
    · rw [part, hnone] at hok
      cases hok
    rw [part, hsome] at hok
    rw [part, hsome']
    cases word with
    | objective sense => cases hok
    | subjectTo =>
        exact (follows_manyUntil steady_atBlockEnd guarded_row).map (f := Part.rows)
          (fun _ => rfl) he hok hnames
    | bounds =>
        exact (follows_manyUntil steady_atBlockEnd guarded_boundStatement).map (f := Part.bounds)
          (fun _ => rfl) he hok hnames
    | generals => exact follows_names.map (f := Part.generals) (fun _ => rfl) he hok hnames
    | binaries => exact follows_names.map (f := Part.binaries) (fun _ => rfl) he hok hnames
    | finish =>
        obtain ⟨rfl, rfl⟩ := Prod.mk.inj (Except.ok.inj hok)
        exact ⟨e', rfl, he⟩

theorem steady_atDocumentEnd : Steady atDocumentEnd := by
  constructor
  case barred =>
    intro c h
    rw [atDocumentEnd, Cursor.keyword?_of_barred h]
    obtain ⟨previous, _ | ⟨token, tokens⟩⟩ := c
    · exact h.elim
    · rfl
  case level =>
    intro c c' h
    rw [atDocumentEnd, atDocumentEnd, h.isEmpty_rest]
    rcases h.sameKeyword with ⟨hnone, hnone'⟩ | ⟨word, d, d', hsome, hsome', -⟩
    · rw [hnone, hnone']
    · rw [hsome, hsome']
      rfl

/-- The expression of an objective behind its label. -/
def objectiveOfLabel (start : Nat) (sense : Sense) (label : Option String) :
    Reader ObjectiveSection :=
  expr.andThen fun sum => placed fun stop => ⟨⟨start, stop⟩, sense, label, sum⟩

def objectiveNames (objective : ObjectiveSection) : List String :=
  exprNames objective.expr

section Objective

variable {start : Nat} {sense : Sense} {label : Option String}

theorem follows_objectiveOfLabel :
    Follows (objectiveOfLabel start sense label) objectiveNames := by
  refine follows_expr.andThen (fun sum => follows_placed _) fun sum c objective d hok hnames => ?_
  obtain ⟨rfl, -⟩ := placed_eq_ok_iff.mp hok
  exact hnames

theorem objectiveOfLabel_refuses {c d : Cursor} {objective : ObjectiveSection}
    (hbarred : Barred c.rest) (hok : objectiveOfLabel start sense label c = .ok (objective, d)) :
    ¬ValidNames (objectiveNames objective) := by
  obtain ⟨sum, e, hsum, hok⟩ := andThen_eq_ok_iff.mp hok
  obtain ⟨rfl, -⟩ := placed_eq_ok_iff.mp hok
  exact guarded_expr.refuses hbarred hsum

end Objective

theorem follows_objectiveSection : Follows objectiveSection objectiveNames := by
  intro c c' d objective h hok hnames
  rw [objectiveSection] at hok ⊢
  rcases h.skipNewlines with hbarred | hlevel
  · rw [Cursor.keyword?_of_barred hbarred] at hok
    dsimp only at hok
    split at hok <;> cases hok
  rcases hlevel.sameKeyword with ⟨hnone, -⟩ | ⟨word, e, e', hsome, hsome', he⟩
  · rw [hnone] at hok
    dsimp only at hok
    split at hok <;> cases hok
  rw [hsome] at hok
  rw [hsome', hlevel.span]
  cases word with
  | objective sense =>
      have hlabelled : Follows (behindLabel (objectiveOfLabel c.skipNewlines.span.start sense))
          objectiveNames :=
        follows_behindLabel (fun _ => follows_objectiveOfLabel)
          fun _ _ _ _ => objectiveOfLabel_refuses
      exact hlabelled he hok hnames
  | _ => cases hok

end Reader

namespace Document

open Reader

theorem mem_mentions_ofParts {signature : Option String} {objective : ObjectiveSection}
    {parts : List Part} {name : String}
    (h : name ∈ exprNames objective.expr ∨ name ∈ parts.flatMap Part.names) :
    name ∈ (ofParts signature objective parts).mentions := by
  rw [mentions, ofParts]
  simp only [List.mem_append]
  rcases h with hobjective | hpart
  · exact .inl (.inl (.inl (.inl hobjective)))
  obtain ⟨found, hfound, hname⟩ := List.mem_flatMap.mp hpart
  cases found with
  | rows items =>
      obtain ⟨item, hitem, hname⟩ := List.mem_flatMap.mp hname
      exact .inl (.inl (.inl (.inr (List.mem_flatMap.mpr
        ⟨item, List.mem_flatMap.mpr ⟨.rows items, hfound, hitem⟩, hname⟩))))
  | bounds items =>
      obtain ⟨item, hitem, hname⟩ := List.mem_flatMap.mp hname
      exact .inl (.inl (.inr (List.mem_map.mpr ⟨item,
        List.mem_flatMap.mpr ⟨.bounds items, hfound, hitem⟩, (List.mem_singleton.mp hname).symm⟩)))
  | generals items =>
      exact .inl (.inr (List.mem_flatMap.mpr ⟨.generals items, hfound, hname⟩))
  | binaries items =>
      exact .inr (List.mem_flatMap.mpr ⟨.binaries items, hfound, hname⟩)

theorem sectionsFrom_of_alike {signature : Option String} {c c' : Cursor} {document : Document}
    (h : c.Alike c') (hok : sectionsFrom signature c = .ok document)
    (hnames : ValidNames document.mentions) (signature' : Option String) :
    sectionsFrom signature' c' = .ok { document with signature := signature' } := by
  rw [sectionsFrom] at hok ⊢
  obtain ⟨⟨objective, e⟩, hobjective, hok⟩ := bind_eq_ok_iff.mp hok
  obtain ⟨⟨parts, last⟩, hparts, hok⟩ := bind_eq_ok_iff.mp hok
  obtain rfl := Except.ok.inj hok
  obtain ⟨e', hobjective', he⟩ := follows_objectiveSection h hobjective fun name hname =>
    hnames name (mem_mentions_ofParts (.inl hname))
  obtain ⟨last', hparts', -⟩ := follows_manyUntil steady_atDocumentEnd guarded_part he hparts
    fun name hname => hnames name (mem_mentions_ofParts (.inr hname))
  rw [hobjective', ok_bind]
  dsimp only
  rw [hparts']
  rfl

end Document

end LinearProgram
