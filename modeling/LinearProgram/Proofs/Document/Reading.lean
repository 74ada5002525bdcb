import LinearProgram.Proofs.Document.Expressions

/-!
# Reading lines back

Rows, bound statements and lists of names are read back from their tokens, and so are
the lines of a section, up to the word that opens the next one.
-/

namespace LinearProgram

open Token

namespace Reader

/-! ## Numbers and relations -/

theorem signs_written (negative : Bool) (previous : Option Token) (word : Token)
    (hkind : word.kind = .number ∨ word.kind = .ident) (rest : List Token) :
    ∃ last, signs false
        (Cursor.mk previous ((if negative then [minus] else []) ++ word :: rest)).skipNewlines =
      (negative, ⟨last, word :: rest⟩) := by
  have hplus : word.kind ≠ .plus := by rcases hkind with h | h <;> simp [h]
  have hminus : word.kind ≠ .minus := by rcases hkind with h | h <;> simp [h]
  have hnewline : word.kind ≠ .newline := by rcases hkind with h | h <;> simp [h]
  have hstop (sign : Bool) (last : Option Token) :
      signsFrom false sign last (word :: rest) = (sign, ⟨last, word :: rest⟩) :=
    signsFrom_stop hplus hminus (fun h => absurd h hnewline) _ _ _
  cases negative with
  | false =>
      refine ⟨previous, ?_⟩
      have hskip : (Cursor.mk previous (word :: rest)).kind ≠ .newline := hnewline
      rw [if_neg Bool.false_ne_true, List.nil_append, Cursor.skipNewlines_of_ne hskip]
      exact hstop false previous
  | true =>
      refine ⟨some minus, ?_⟩
      have hskip : (Cursor.mk previous (minus :: word :: rest)).kind ≠ .newline :=
        TokenKind.noConfusion
      rw [if_pos rfl, List.singleton_append, Cursor.skipNewlines_of_ne hskip, signs,
        signsFrom_minus rfl]
      exact hstop true (some minus)

theorem value_number (negative : Bool) (m : Magnitude) (previous : Option Token)
    (rest : List Token) :
    value ⟨previous, (if negative then [minus] else []) ++
        number (lpNumber (.finite false m)) :: rest⟩ =
      .ok (.finite negative m, ⟨some (number (lpNumber (.finite false m))), rest⟩) := by
  obtain ⟨last, hsigns⟩ :=
    signs_written negative previous (number (lpNumber (.finite false m))) (.inl rfl) rest
  have hkind : (number (lpNumber (.finite false m))).kind = .number := rfl
  rw [value, hsigns]
  dsimp only
  rw [if_pos hkind, numeral_lpNumber]
  cases negative <;> rfl

theorem value_infinity (negative : Bool) (previous : Option Token) (rest : List Token) :
    value ⟨previous, (if negative then [minus] else []) ++ ident ['i', 'n', 'f'] :: rest⟩ =
      .ok (.infinity negative, ⟨some (ident ['i', 'n', 'f']), rest⟩) := by
  obtain ⟨last, hsigns⟩ :=
    signs_written negative previous (ident ['i', 'n', 'f']) (.inr rfl) rest
  have hkind : (ident ['i', 'n', 'f']).kind ≠ .number := TokenKind.noConfusion
  have hword : isInfinityWord (ident ['i', 'n', 'f']) = true := by decide
  rw [value, hsigns]
  dsimp only
  rw [if_neg hkind, if_pos hword]
  cases negative <;> rfl

/-- A written number is read back, apart from the sign of zero. -/
theorem value_ofNumber {x : Binary64} (h : x.isNaN = false) (previous : Option Token)
    (rest : List Token) :
    ∃ last, value ⟨previous, ofNumber x ++ rest⟩ = .ok (x.dropZeroSign, ⟨last, rest⟩) ∧
      (Cursor.mk last rest).lastStop = 0 := by
  cases x with
  | nan => exact Bool.noConfusion h
  | infinity negative =>
      refine ⟨some (ident ['i', 'n', 'f']), ?_, rfl⟩
      rw [ofNumber, List.append_assoc]
      exact value_infinity negative previous rest
  | finite negative m =>
      refine ⟨some (number (lpNumber (.finite false m))), ?_, rfl⟩
      rw [ofNumber, List.append_assoc]
      exact value_number (negative && m.quanta != 0) m previous rest

theorem relation_ofRelation (r : Relation) (previous : Option Token) (rest : List Token) :
    relation ⟨previous, ofRelation r :: rest⟩ = .ok (r, ⟨some (ofRelation r), rest⟩) := by
  cases r <;> rfl

theorem atRelation_ofRelation (r : Relation) (previous : Option Token) (rest : List Token) :
    (Cursor.mk previous (ofRelation r :: rest)).atRelation = true := by
  cases r <;> rfl

theorem token_ident (name : String) (previous : Option Token) (rest : List Token) :
    token .ident ⟨previous, plain .ident name :: rest⟩ =
      .ok (plain .ident name, ⟨some (plain .ident name), rest⟩) :=
  rfl

/-! ## Rows -/

theorem row_of_laid {written : Row} (h : written.Legible) {tokens : List Token}
    (hlaid : written.Laid tokens) (previous : Option Token) (rest : List Token) :
    ∃ last, row ⟨previous, tokens ++ rest⟩ = .ok (written.bare, ⟨last, rest⟩) := by
  obtain ⟨hlabel, hbroken⟩ := hlaid
  rename_i label broken
  obtain ⟨front, back, rfl, hfront, hback⟩ := hbroken.exists_of_append
  obtain ⟨later, hlater, hskip⟩ := exists_skipNewlines_broken hback fun later => by
    cases written.relation <;> exact TokenKind.noConfusion
  cases hlater
  have hends : EndsExpr (back ++ rest) := by
    have hrelation (p : TokenKind → Prop) (hnewline : p .newline)
        (hsign : ∀ later, p (firstKind (ofRelation written.relation :: later))) :
        p (firstKind (back ++ rest)) := by
      cases hback with
      | stay _ => exact hsign _
      | wrap _ => exact hnewline
    refine ⟨fun q => ?_, hrelation (· ≠ .ident) TokenKind.noConfusion fun later => ?_,
      hrelation (· ≠ .colon) TokenKind.noConfusion fun later => ?_⟩
    · obtain ⟨last, hlast⟩ := hskip q rest
      rw [hlast, atExprEnd, List.cons_append, atRelation_ofRelation]
      rfl
    · cases written.relation <;> exact TokenKind.noConfusion
    · cases written.relation <;> exact TokenKind.noConfusion
  obtain ⟨q, hexpr⟩ := expr_pieces hends h.expr hfront (some colon)
  obtain ⟨last, hlast⟩ := hskip q rest
  obtain ⟨behind, hvalue, hstop⟩ := value_ofNumber h.rhs (some (ofRelation written.relation)) rest
  refine ⟨behind, ?_⟩
  have hnames : label? ⟨previous, plain .ident label :: colon :: (front ++ (back ++ rest))⟩ =
      (some label, ⟨some colon, front ++ (back ++ rest)⟩) := rfl
  rw [List.cons_append, List.cons_append, List.append_assoc, row, hnames]
  dsimp only
  rw [hexpr, hlast, ok_bind]
  dsimp only
  rw [List.cons_append, relation_ofRelation, ok_bind]
  dsimp only
  rw [List.nil_append, hvalue, h.unsigned, ok_bind]
  dsimp only
  rw [hstop, ← hlabel]
  rfl

/-! ## Bounds -/

theorem isInfinityWord_eq_false {name : String} (h : Unreserved name) :
    isInfinityWord (plain .ident name) = false := by
  have hinf : asciiLower name ≠ "inf" := fun heq => h (by rw [heq]; decide)
  have hinfinity : asciiLower name ≠ "infinity" := fun heq => h (by rw [heq]; decide)
  simp [isInfinityWord, hinf, hinfinity]

theorem boundStatement_name {name : String} (h : Unreserved name) (previous : Option Token)
    (rest : List Token) :
    boundStatement ⟨previous, plain .ident name :: rest⟩ =
      nameFirstBound 0 ⟨previous, plain .ident name :: rest⟩ := by
  have hvalue : atBoundValue ⟨previous, plain .ident name :: rest⟩ = false := by
    simp only [atBoundValue, isInfinityWord_eq_false h]
    rfl
  rw [boundStatement, hvalue]
  rfl

theorem nameFirstBound_relation (name : String) (r : Relation) {x : Binary64}
    (hnan : x.isNaN = false) (hunsigned : x.dropZeroSign = x) (previous : Option Token)
    (rest : List Token) :
    ∃ last, nameFirstBound 0 ⟨previous, plain .ident name :: ofRelation r :: ofNumber x ++ rest⟩ =
      .ok (⟨⟨0, 0⟩, name, (sidesOf r x).1, (sidesOf r x).2⟩, ⟨last, rest⟩) := by
  obtain ⟨last, hvalue, hstop⟩ := value_ofNumber hnan (some (ofRelation r)) rest
  have hfree : atFree ⟨some (plain .ident name), ofRelation r :: ofNumber x ++ rest⟩ = false := by
    cases r <;> rfl
  refine ⟨last, ?_⟩
  rw [nameFirstBound, List.cons_append, token_ident, ok_bind]
  dsimp only
  rw [hfree, if_neg Bool.false_ne_true, List.cons_append, relation_ofRelation, ok_bind]
  dsimp only
  rw [hvalue, hunsigned, ok_bind]
  dsimp only
  rw [hstop]
  rfl

theorem nameFirstBound_free (name : String) (previous : Option Token) (rest : List Token) :
    nameFirstBound 0 ⟨previous, plain .ident name :: plain .ident "free" :: rest⟩ =
      .ok (⟨⟨0, 0⟩, name, some (.infinity true), some (.infinity false)⟩,
        ⟨some (plain .ident "free"), rest⟩) := by
  have hfree : atFree ⟨some (plain .ident name), plain .ident "free" :: rest⟩ = true := by
    have hword : asciiLower "free" = "free" := by decide
    simp [atFree, hword]
  rw [nameFirstBound, token_ident, ok_bind]
  dsimp only
  rw [hfree]
  rfl

theorem boundStatement_value {x : Binary64} (hnan : x.isNaN = false)
    (hbelow : x ≠ .infinity false) (previous : Option Token) (rest : List Token) :
    boundStatement ⟨previous, ofNumber x ++ rest⟩ =
      valueFirstBound 0 ⟨previous, ofNumber x ++ rest⟩ := by
  cases x with
  | nan => exact Bool.noConfusion hnan
  | infinity negative =>
      cases negative with
      | false => exact absurd rfl hbelow
      | true => rfl
  | finite negative m =>
      rw [ofNumber]
      cases negative && m.quanta != 0 <;> rfl

theorem valueFirstBound_sides (name : String) {lower upper : Binary64}
    (hlower : lower.isNaN = false ∧ lower.dropZeroSign = lower)
    (hupper : upper.isNaN = false ∧ upper.dropZeroSign = upper) (previous : Option Token)
    (rest : List Token) :
    ∃ last, valueFirstBound 0 ⟨previous, ofNumber lower ++ (ofRelation .le :: plain .ident name ::
        ofRelation .le :: (ofNumber upper ++ rest))⟩ =
      .ok (⟨⟨0, 0⟩, name, some lower, some upper⟩, ⟨last, rest⟩) := by
  obtain ⟨first, hfirst, -⟩ := value_ofNumber hlower.1 previous
    (ofRelation .le :: plain .ident name :: ofRelation .le :: (ofNumber upper ++ rest))
  obtain ⟨last, hlast, hstop⟩ := value_ofNumber hupper.1 (some (ofRelation .le)) rest
  refine ⟨last, ?_⟩
  rw [valueFirstBound, hfirst, ok_bind]
  dsimp only
  rw [relation_ofRelation, ok_bind]
  dsimp only
  rw [token_ident, ok_bind]
  dsimp only
  rw [atRelation_ofRelation, if_pos rfl, relation_ofRelation, ok_bind]
  dsimp only
  rw [hlast, hlower.2, hupper.2, ok_bind]
  dsimp only
  rw [hstop]
  rfl

theorem boundStatement_tokens {statement : BoundStatement} (h : statement.Legible)
    (previous : Option Token) (rest : List Token) :
    ∃ last, boundStatement ⟨previous, statement.tokens ++ rest⟩ =
      .ok (statement.bare, ⟨last, rest⟩) := by
  obtain ⟨span, name, lower, upper⟩ := statement
  obtain ⟨hname, hsides, hlower, hupper, hbelow⟩ := h
  rw [BoundStatement.tokens]
  cases lower with
  | none =>
      cases upper with
      | none => simp at hsides
      | some upper =>
          obtain ⟨hnan, hunsigned⟩ := hupper upper rfl
          obtain ⟨last, hread⟩ :=
            nameFirstBound_relation name .le hnan hunsigned previous rest
          exact ⟨last, (boundStatement_name hname previous _).trans hread⟩
  | some lower =>
      obtain ⟨hnan, hunsigned⟩ := hlower lower rfl
      cases upper with
      | none =>
          obtain ⟨last, hread⟩ :=
            nameFirstBound_relation name .ge hnan hunsigned previous rest
          exact ⟨last, (boundStatement_name hname previous _).trans hread⟩
      | some upper =>
          dsimp only
          by_cases hfree : lower = .infinity true ∧ upper = .infinity false
          · obtain ⟨rfl, rfl⟩ := hfree
            rw [if_pos ⟨rfl, rfl⟩]
            exact ⟨_, (boundStatement_name hname previous _).trans
              (nameFirstBound_free name previous rest)⟩
          rw [if_neg hfree]
          by_cases hfixed : lower = upper
          · subst hfixed
            obtain ⟨last, hread⟩ :=
              nameFirstBound_relation name .eq hnan hunsigned previous rest
            rw [if_pos rfl]
            exact ⟨last, (boundStatement_name hname previous _).trans hread⟩
          · obtain ⟨last, hread⟩ := valueFirstBound_sides name ⟨hnan, hunsigned⟩
              (hupper upper rfl) previous rest
            have hstart : lower ≠ .infinity false := fun heq => hbelow (congrArg some heq)
            rw [if_neg hfixed, List.append_assoc]
            exact ⟨last, (boundStatement_value hnan hstart previous _).trans hread⟩

/-! ## Lines of a section -/

/-- Tokens that open a section when they stand at the start of a line. -/
def OpensSection (rest : List Token) : Prop :=
  (Cursor.mk (some newline) rest).keyword?.isSome = true

theorem OpensSection.atBlockEnd {rest : List Token} (h : OpensSection rest) :
    (Cursor.mk (some newline) rest).atBlockEnd = true := by
  rw [Cursor.atBlockEnd, h, Bool.or_true]

theorem OpensSection.skipNewlines {rest : List Token} (h : OpensSection rest)
    (previous : Option Token) :
    (Cursor.mk previous (newline :: rest)).skipNewlines = ⟨some newline, rest⟩ := by
  have hkind : (Cursor.mk (some newline) rest).kind ≠ .newline := by
    intro hnewline
    have hne : (Cursor.mk (some newline) rest).kind ≠ .ident := by simp [hnewline]
    rw [OpensSection, Cursor.keyword?_eq_none_of_kind_ne hne] at h
    exact Bool.noConfusion h
  rw [Cursor.skipNewlines_newline, Cursor.skipNewlines_of_ne hkind]

theorem manyUntil_congr {stop : Cursor → Bool} {item : Reader α} {h : Shortens item}
    {c c' : Cursor} (hskip : c.skipNewlines = c'.skipNewlines) :
    manyUntil stop item h c = manyUntil stop item h c' := by
  rw [manyUntil_eq, manyUntil_eq, hskip]

/-- Tokens that open an item of a section and are read as this item. -/
structure ReadAs (item : Reader α) (x : α) (tokens : List Token) : Prop where
  newline : ∀ rest, firstKind (tokens ++ rest) ≠ .newline
  more : ∀ previous rest, (Cursor.mk previous (tokens ++ rest)).atBlockEnd = false
  read : ∀ previous rest, ∃ last, item ⟨previous, tokens ++ rest⟩ = .ok (x, ⟨last, rest⟩)

/-- Items on lines of their own are read until a section begins. -/
theorem manyUntil_lines {item : Reader α} {h : Shortens item} {f : α → α}
    {laid : α → List Token → Prop} {rest : List Token} (hrest : OpensSection rest) {xs : List α}
    (hitems : ∀ x ∈ xs, ∀ tokens, laid x tokens → ReadAs item (f x) tokens)
    {tokens : List Token} (hlines : Lines laid xs tokens) (previous : Option Token) :
    manyUntil Cursor.atBlockEnd item h ⟨previous, newline :: (tokens ++ rest)⟩ =
      .ok (xs.map f, ⟨some newline, rest⟩) := by
  induction hlines generalizing previous with
  | nil =>
      have hskip := hrest.skipNewlines previous
      rw [List.nil_append, manyUntil_done (by rw [hskip]; exact hrest.atBlockEnd), hskip]
      rfl
  | @cons x xs tokens later hlaid _ ih =>
      have hread := hitems x List.mem_cons_self tokens hlaid
      obtain ⟨last, hitem⟩ := hread.read (some newline) (newline :: (later ++ rest))
      have hlater := ih (fun y hy => hitems y (List.mem_cons_of_mem x hy)) last
      have hskip : (Cursor.mk previous
          (newline :: (tokens ++ newline :: later ++ rest))).skipNewlines =
          ⟨some newline, tokens ++ newline :: (later ++ rest)⟩ := by
        rw [Cursor.skipNewlines_newline, List.append_assoc, List.cons_append]
        exact Cursor.skipNewlines_of_ne (hread.newline _)
      refine manyUntil_step ?_ ?_ hlater
      · rw [hskip]
        exact hread.more _ _
      · rw [hskip]
        exact hitem

theorem readAs_row {written : Row} (h : written.Legible) {tokens : List Token}
    (hlaid : written.Laid tokens) : ReadAs row written.bare tokens := by
  constructor
  · intro rest
    obtain ⟨-, -⟩ := hlaid
    exact TokenKind.noConfusion
  · intro previous rest
    obtain ⟨-, -⟩ := hlaid
    exact Cursor.atBlockEnd_eq_false (Cursor.keyword?_eq_none_of_colon _ _ _)
  · exact row_of_laid h hlaid

/-- The first token of a number that is not positive infinity is not a word. -/
theorem firstKind_ofNumber {x : Binary64} (hnan : x.isNaN = false) (hbelow : x ≠ .infinity false)
    (rest : List Token) :
    ∃ first later, ofNumber x ++ rest = first :: later ∧
      (first.kind = .number ∨ first.kind = .minus) := by
  cases x with
  | nan => exact Bool.noConfusion hnan
  | infinity negative =>
      cases negative with
      | false => exact absurd rfl hbelow
      | true => exact ⟨_, _, rfl, .inr rfl⟩
  | finite negative m =>
      rw [ofNumber]
      cases negative && m.quanta != 0 with
      | false => exact ⟨_, _, rfl, .inl rfl⟩
      | true => exact ⟨_, _, rfl, .inr rfl⟩

/-- A bound statement begins with the name of its variable or with a number. -/
theorem firstKind_boundStatement {statement : BoundStatement} (h : statement.Legible)
    (rest : List Token) :
    ∃ first later, statement.tokens ++ rest = first :: later ∧
      (first = plain .ident statement.name ∨ first.kind = .number ∨ first.kind = .minus) := by
  obtain ⟨span, name, lower, upper⟩ := statement
  obtain ⟨-, -, hlower, -, hbelow⟩ := h
  rw [BoundStatement.tokens]
  cases lower with
  | none => cases upper <;> exact ⟨_, _, rfl, .inl rfl⟩
  | some lower =>
      cases upper with
      | none => exact ⟨_, _, rfl, .inl rfl⟩
      | some upper =>
          dsimp only
          split
          · exact ⟨_, _, rfl, .inl rfl⟩
          · split
            · exact ⟨_, _, rfl, .inl rfl⟩
            · have hne : lower ≠ .infinity false := fun heq => hbelow (congrArg some heq)
              obtain ⟨first, later, heq, hkind⟩ := firstKind_ofNumber (hlower lower rfl).1 hne
                (ofRelation .le :: plain .ident name :: ofRelation .le ::
                  (ofNumber upper ++ rest))
              exact ⟨first, later, by rw [List.append_assoc]; exact heq, .inr hkind⟩

theorem readAs_boundStatement {statement : BoundStatement} (h : statement.Legible) :
    ReadAs boundStatement statement.bare statement.tokens := by
  constructor
  · intro rest
    obtain ⟨first, later, heq, hfirst⟩ := firstKind_boundStatement h rest
    rw [heq, firstKind_cons]
    rcases hfirst with rfl | hkind | hkind
    · exact TokenKind.noConfusion
    · simp [hkind]
    · simp [hkind]
  · intro previous rest
    obtain ⟨first, later, heq, hfirst⟩ := firstKind_boundStatement h rest
    rw [heq]
    apply Cursor.atBlockEnd_eq_false
    rcases hfirst with rfl | hkind | hkind
    · exact Cursor.keyword?_eq_none_of_unreserved h.name previous later
    · exact Cursor.keyword?_eq_none_of_kind_ne (by simp [hkind])
    · exact Cursor.keyword?_eq_none_of_kind_ne (by simp [hkind])
  · exact boundStatement_tokens h

theorem manyUntil_names {rest : List Token} (hrest : OpensSection rest) {names : List String}
    (hnames : ∀ name ∈ names, Unreserved name) {tokens : List Token}
    (hbroken : Broken (namePieces names) tokens) (previous : Option Token) :
    manyUntil Cursor.atBlockEnd (token .ident) (token_shortens .ident)
        ⟨previous, tokens ++ newline :: rest⟩ =
      .ok (names.map (plain .ident), ⟨some newline, rest⟩) := by
  induction names generalizing tokens previous with
  | nil =>
      cases hbroken
      have hskip := hrest.skipNewlines previous
      rw [List.nil_append, manyUntil_done (by rw [hskip]; exact hrest.atBlockEnd), hskip]
      rfl
  | cons name names ih =>
      obtain ⟨later, hlater, hskip⟩ := exists_skipNewlines_broken hbroken fun later =>
        TokenKind.noConfusion
      obtain ⟨last, hlast⟩ := hskip previous (newline :: rest)
      have hname : Unreserved name := hnames name List.mem_cons_self
      have hmore := Cursor.atBlockEnd_eq_false
        (Cursor.keyword?_eq_none_of_unreserved hname last (later ++ newline :: rest))
      refine manyUntil_step ?_ ?_
        (ih (fun other hother => hnames other (List.mem_cons_of_mem name hother)) hlater
          (some (plain .ident name)))
      · rw [hlast]
        exact hmore
      · rw [hlast]
        exact token_ident name last _

theorem names_of_laid {rest : List Token} (hrest : OpensSection rest) {listed : List String}
    (hlisted : ∀ name ∈ listed, Unreserved name) {tokens : List Token}
    (hlaid : Document.LaidNames listed tokens) (previous : Option Token) :
    names ⟨previous, newline :: (tokens ++ rest)⟩ = .ok (listed, ⟨some newline, rest⟩) := by
  obtain ⟨broken, hbroken, rfl⟩ := hlaid
  have hskip : (Cursor.mk previous (newline :: (broken ++ [newline] ++ rest))).skipNewlines =
      (Cursor.mk (some newline) (broken ++ newline :: rest)).skipNewlines := by
    rw [Cursor.skipNewlines_newline, List.append_assoc, List.singleton_append]
  rw [names, manyUntil_congr hskip, manyUntil_names hrest hlisted hbroken, ok_bind]
  simp [pure, Except.pure, Function.comp_def]

end Reader

end LinearProgram
