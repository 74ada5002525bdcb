import LinearProgram.Proofs.Walk.Reading

/-!
# Walks and parsers

What a walk finds at a position is what a parser finds at the cursor that stands there, but
for the end of the input, which is a token to the one and nothing to the other.  So every walk
yields what the parser of its name gives.  Most parsers are sequences, where this follows step
by step; a list is read by turns of a loop on one side and by recursion on the other, and
`Walk.itemsBehind` is what the parser reads behind the items of earlier turns.  The main
statements are `Walk.yields_objectiveSection` and `Walk.yields_parts`.
-/

namespace LinearProgram

open Reader (Part Summand applySign exprOf isInfinityWord sidesOf overSides)

/-! ## What stands at a cursor -/

namespace Cursor

section StandsAt

variable {track : Track} {c d : Cursor} {previous : Option Token} {first : Token}
  {later : List Token} {i : Nat}

theorem StandsAt.getElem?_nil (h : (Cursor.mk previous []).StandsAt track i) :
    track.tokens[i]? = some track.finish :=
  h.getElem? 0

theorem StandsAt.getElem?_cons (h : (Cursor.mk previous (first :: later)).StandsAt track i) :
    track.tokens[i]? = some first :=
  h.getElem? 0

theorem StandsAt.behind (h : (Cursor.mk previous (first :: later)).StandsAt track i) :
    (Cursor.mk (some first) later).StandsAt track (i + 1) :=
  h.reads (.token previous first later)

theorem StandsAt.kindAt (h : c.StandsAt track i) : Walk.kindAt track.tokens i = c.kind := by
  obtain ⟨previous, _ | ⟨first, later⟩⟩ := c
  · rw [Walk.kindAt, h.getElem?_nil]
    exact track.kind_finish
  · rw [Walk.kindAt, h.getElem?_cons]
    rfl

theorem StandsAt.kindAt_succ (h : c.StandsAt track i) :
    Walk.kindAt track.tokens (i + 1) = (Cursor.mk c.rest.head? c.rest.tail).kind := by
  obtain ⟨previous, _ | ⟨first, later⟩⟩ := c
  · rw [Walk.kindAt, h.getElem? 1]
    rfl
  · exact h.behind.kindAt

theorem StandsAt.spanAt (h : c.StandsAt track i) (hne : c.rest ≠ []) :
    Walk.spanAt track.tokens i = c.span := by
  obtain ⟨previous, _ | ⟨first, later⟩⟩ := c
  · exact absurd rfl hne
  · rw [Walk.spanAt, h.getElem?_cons]
    rfl

theorem StandsAt.startsLine (h : c.StandsAt track i) :
    Walk.startsLine track.tokens i = c.atLineStart := by
  rw [Walk.startsLine]
  obtain ⟨_ | token, later⟩ := c
  · rw [h.previous_eq_none_iff.mp rfl]
    rfl
  · have hpos : i ≠ 0 := mt h.previous_eq_none_iff.mpr (Option.some_ne_none token)
    rw [h.getElem?_pred hpos, decide_eq_false hpos]
    rfl

theorem StandsAt.lastStop (h : c.StandsAt track i) (hread : c.previous ≠ none) (span : Span) :
    Walk.lastStop track.tokens span i = c.lastStop := by
  obtain ⟨_ | token, later⟩ := c
  · exact absurd rfl hread
  · have hpos : i ≠ 0 := mt h.previous_eq_none_iff.mpr hread
    rw [Walk.lastStop, h.getElem?_pred hpos]
    rfl

theorem StandsAt.relationAt (h : c.StandsAt track i) :
    Walk.relationAt track.tokens i = c.atRelation := by
  rw [Walk.relationAt, h.kindAt]
  rfl

theorem StandsAt.signAt (h : c.StandsAt track i) : Walk.signAt track.tokens i = c.atSign := by
  rw [Walk.signAt, h.kindAt]
  rfl

theorem StandsAt.kind_eq_endOfInput_iff (h : c.StandsAt track i) :
    c.kind = .endOfInput ↔ c.rest.isEmpty = true := by
  have hkind := h.kind_ne
  obtain ⟨previous, _ | ⟨first, later⟩⟩ := c
  · exact iff_of_true rfl rfl
  · exact iff_of_false (hkind first List.mem_cons_self) Bool.false_ne_true

theorem StandsAt.errorAt (h : c.StandsAt track i) (expected : Expectation) :
    Walk.errorAt track.tokens expected i = Reader.unexpected expected c := by
  have hkind := h.kind_ne
  obtain ⟨previous, _ | ⟨first, later⟩⟩ := c
  · rw [Walk.errorAt, h.getElem?_nil]
    exact if_neg (not_not_intro track.kind_finish)
  · rw [Walk.errorAt, h.getElem?_cons]
    exact if_pos (hkind first List.mem_cons_self)

theorem StandsAt.any_free (h : c.StandsAt track i) :
    (track.tokens[i]?.any fun word => word.kind = .ident && asciiLower word.text = "free") =
      Reader.atFree c := by
  obtain ⟨previous, _ | ⟨first, later⟩⟩ := c
  · rw [h.getElem?_nil]
    simp [track.kind_finish, Reader.atFree]
  · rw [h.getElem?_cons]
    rfl

/-- The end of the input is no part of a keyword, nor does it keep one from being there. -/
theorem StandsAt.keywordAt? (h : (Cursor.mk previous (first :: later)).StandsAt track i) :
    Walk.keywordAt? track.tokens i =
      if (Cursor.mk previous (first :: later)).atLineStart then
        Walk.keywordOf? first later.head?
      else none := by
  rw [Walk.keywordAt?, h.startsLine, h.getElem?_cons, Option.bind_some]
  cases later with
  | nil =>
      have hcolon : track.finish.kind ≠ .colon := by simp [track.kind_finish]
      have htwo : twoWords? first track.finish = none :=
        if_neg fun hboth => by simp [track.kind_finish] at hboth
      rw [h.behind.getElem?_nil]
      simp [Walk.keywordOf?, hcolon, htwo]
  | cons second later => rw [h.behind.getElem?_cons, List.head?_cons]

/-- A keyword at the head of some tokens takes one or two of them, or there is none. -/
theorem keywordOf?_cases (first : Token) (later : List Token) :
    (keywordOf? (first :: later) = none ∧ Walk.keywordOf? first later.head? = none) ∨
      ∃ keyword d run, keywordOf? (first :: later) = some (keyword, d) ∧
        (∀ previous, (Cursor.mk previous (first :: later)).Reads run d) ∧
        Walk.keywordOf? first later.head? = some (keyword, run.length) := by
  have htake (second : Token) (later : List Token) (previous : Option Token) :=
    (Reads.token previous first (second :: later)).trans (.token (some first) second later)
  cases later with
  | nil =>
      cases hone : oneWord? first with
      | none => simp [keywordOf?, Walk.keywordOf?, hone]
      | some word =>
          refine .inr ⟨word, _, [first], ?_, fun previous => .token previous first [], ?_⟩
          all_goals simp [keywordOf?, Walk.keywordOf?, hone]
  | cons second later =>
      by_cases hcolon : second.kind = .colon
      · simp [keywordOf?, Walk.keywordOf?, hcolon]
      cases htwo : twoWords? first second with
      | some word =>
          refine .inr ⟨word, _, _, ?_, htake second later, ?_⟩
          all_goals simp [keywordOf?, Walk.keywordOf?, hcolon, htwo]
      | none =>
          cases hone : oneWord? first with
          | none => simp [keywordOf?, Walk.keywordOf?, hcolon, htwo, hone]
          | some word =>
              refine .inr ⟨word, _, [first], ?_,
                fun previous => .token previous first (second :: later), ?_⟩
              all_goals simp [keywordOf?, Walk.keywordOf?, hcolon, htwo, hone]

/-- The keyword at a cursor and the one at its position are the same. -/
theorem keyword?_cases (c : Cursor) :
    (c.keyword? = none ∧ ∀ track i, c.StandsAt track i →
      Walk.keywordAt? track.tokens i = none) ∨
    ∃ keyword d run, c.keyword? = some (keyword, d) ∧ c.Reads run d ∧
      ∀ track i, c.StandsAt track i →
        Walk.keywordAt? track.tokens i = some (keyword, run.length) := by
  obtain ⟨previous, _ | ⟨first, later⟩⟩ := c
  · refine .inl ⟨by simp [keyword?, keywordOf?], fun track i h => ?_⟩
    have hkind := track.kind_finish
    rw [Walk.keywordAt?, h.getElem?_nil, h.getElem? 1]
    simp [Walk.keywordOf?, oneWord?, hkind]
  · rw [keyword?]
    split
    case isFalse hline => exact .inl ⟨rfl, fun track i h => by rw [h.keywordAt?, if_neg hline]⟩
    case isTrue hline =>
      rcases keywordOf?_cases first later with
        ⟨hnone, hnone'⟩ | ⟨keyword, d, run, hsome, hreads, hsome'⟩
      · exact .inl ⟨hnone, fun track i h => by rw [h.keywordAt?, if_pos hline, hnone']⟩
      · exact .inr ⟨keyword, d, run, hsome, hreads previous,
          fun track i h => by rw [h.keywordAt?, if_pos hline, hsome']⟩

theorem StandsAt.endsBlock (h : c.StandsAt track i) :
    Walk.endsBlock track.tokens i = c.atBlockEnd := by
  have hempty : decide (c.kind = .endOfInput) = c.rest.isEmpty := by
    rw [Bool.eq_iff_iff, decide_eq_true_eq, h.kind_eq_endOfInput_iff]
  rw [Walk.endsBlock, h.kindAt, hempty, atBlockEnd]
  rcases keyword?_cases c with ⟨hnone, hnone'⟩ | ⟨keyword, d, run, hsome, -, hsome'⟩
  · rw [hnone, hnone' track i h]
    rfl
  · rw [hsome, hsome' track i h]
    rfl

end StandsAt

end Cursor

namespace Walk

variable {track : Track}

/-! ## Words, relations and values -/

theorem yields_unexpected (expected : Expectation) (c : Cursor) :
    Yields track (unexpected track.tokens expected : Walk α) c
      (.error (Reader.unexpected expected c)) := by
  refine (yields_look fun i h => h.errorAt expected).next ?_
  exact yields_throw _ c

theorem yields_skipNewlines (c : Cursor) :
    Yields track (skipNewlines track.tokens) c (.ok ((), c.skipNewlines)) := by
  refine yields_loop (fun _ _ => True) (fun _ c => .ok ((), c.skipNewlines))
    (fun _ c _ => ?_) () c trivial
  by_cases hkind : c.kind = .newline
  · obtain ⟨previous, _ | ⟨first, later⟩⟩ := c
    · cases hkind
    · refine .goesOn (s := ()) (d := ⟨some first, later⟩) ?_ (Nat.lt_succ_self _) trivial ?_
      · refine (yields_look fun i h => h.kindAt).next (.ite_pos hkind ?_)
        exact (yields_move_one _ _ _).next (yields_pure _ _)
      · exact congrArg (fun d => Except.ok ((), d)) (Cursor.skipNewlines_line hkind previous later)
  · refine .leaves (x := ()) (d := c) ?_ ?_
    · exact (yields_look fun i h => h.kindAt).next (.ite_neg hkind (yields_pure _ _))
    · exact congrArg (fun d => Except.ok ((), d)) (Cursor.skipNewlines_of_ne hkind)

/-- Line breaks in front of signs that may be read over them do not matter. -/
theorem signsFrom_skipNewlines (negative : Bool) (c : Cursor) :
    Reader.signsFrom true negative c.skipNewlines.previous c.skipNewlines.rest =
      Reader.signsFrom true negative c.previous c.rest := by
  obtain ⟨previous, tokens⟩ := c
  induction tokens generalizing previous with
  | nil => rfl
  | cons first later ih =>
      by_cases hkind : first.kind = .newline
      · rw [Cursor.skipNewlines_line hkind, Reader.signsFrom_newline hkind]
        exact ih (some first)
      · rw [Cursor.skipNewlines_cons hkind]

/-- The cursor behind a sign, and behind the line breaks there if they are skipped. -/
def behindSign (overNewlines : Bool) (sign : Token) (later : List Token) : Cursor :=
  if overNewlines then (Cursor.mk (some sign) later).skipNewlines else ⟨some sign, later⟩

theorem length_behindSign_lt (overNewlines : Bool) (sign : Token) (later : List Token) :
    (behindSign overNewlines sign later).rest.length < (sign :: later).length := by
  have hskip := Cursor.length_skipNewlines_le ⟨some sign, later⟩
  rw [behindSign]
  split
  · exact Nat.lt_succ_of_le hskip
  · exact Nat.lt_succ_self _

theorem signsFrom_behindSign (overNewlines negative : Bool) (sign : Token)
    (later : List Token) :
    Reader.signsFrom overNewlines negative (behindSign overNewlines sign later).previous
        (behindSign overNewlines sign later).rest =
      Reader.signsFrom overNewlines negative (some sign) later := by
  cases overNewlines
  · rfl
  · exact signsFrom_skipNewlines negative ⟨some sign, later⟩

theorem signsFrom_sign {previous : Option Token} {sign : Token} {later : List Token}
    (hsign : (Cursor.mk previous (sign :: later)).atSign = true) (overNewlines negative : Bool) :
    Reader.signsFrom overNewlines negative previous (sign :: later) =
      Reader.signsFrom overNewlines (if sign.kind = .minus then !negative else negative)
        (some sign) later := by
  rcases Grammar.atSign_iff.mpr hsign with hplus | hminus
  · have hkind : sign.kind = .plus := hplus
    rw [Reader.signsFrom_plus hkind]
    simp [hkind]
  · have hkind : sign.kind = .minus := hminus
    rw [Reader.signsFrom_minus hkind, if_pos hkind]

theorem signsFrom_of_not_atSign {overNewlines : Bool} {c : Cursor} (hsign : ¬c.atSign = true)
    (hskipped : overNewlines = true → c.kind ≠ .newline) (negative : Bool) :
    Reader.signsFrom overNewlines negative c.previous c.rest = (negative, c) := by
  obtain ⟨previous, _ | ⟨first, later⟩⟩ := c
  · rfl
  have hnot : ¬Grammar.AtSign ⟨previous, first :: later⟩ := mt Grammar.atSign_iff.mp hsign
  obtain ⟨hplus, hminus⟩ := not_or.mp hnot
  refine Reader.signsFrom_stop hplus hminus (fun hnewline => ?_) negative previous later
  exact Bool.eq_false_iff.mpr fun hover => hskipped hover hnewline

theorem yields_signs {overNewlines : Bool} {c : Cursor}
    (hskipped : overNewlines = true → c.kind ≠ .newline) :
    Yields track (signs track.tokens overNewlines) c (.ok (Reader.signs overNewlines c)) := by
  -- No turn begins at a line break that the signs are read over.
  refine yields_loop (fun _ c => overNewlines = true → c.kind ≠ .newline)
    (fun negative c => .ok (Reader.signsFrom overNewlines negative c.previous c.rest))
    (fun negative c hvalid => ?_) false c hskipped
  by_cases hsign : c.atSign = true
  · obtain ⟨previous, _ | ⟨first, later⟩⟩ := c
    · cases hsign
    have hvalid' : overNewlines = true →
        (behindSign overNewlines first later).kind ≠ .newline := by
      intro hover
      rw [behindSign, if_pos hover]
      exact Cursor.kind_skipNewlines_ne _
    refine .goesOn (s := if first.kind = .minus then !negative else negative)
      (d := behindSign overNewlines first later) ?_ (length_behindSign_lt _ _ _) hvalid' ?_
    · refine (yields_look fun i h => h.signAt).next (.ite_pos hsign ?_)
      refine (yields_look fun i h => h.kindAt).next ((yields_move_one _ _ _).next ?_)
      cases overNewlines
      · exact yields_pure _ _
      · exact (yields_skipNewlines _).next (yields_pure _ _)
    · dsimp only
      rw [signsFrom_behindSign, signsFrom_sign hsign]
  · refine .leaves (x := negative) (d := c) ?_ ?_
    · exact (yields_look fun i h => h.signAt).next (.ite_neg hsign (yields_pure _ _))
    · exact congrArg Except.ok (signsFrom_of_not_atSign hsign hvalid negative)

theorem yields_token {kind : TokenKind} (hne : kind ≠ .endOfInput) (c : Cursor) :
    Yields track (token track.tokens kind) c (Reader.token kind c) := by
  refine (yields_skipNewlines c).next ?_
  rw [Reader.token]
  generalize c.skipNewlines = d
  obtain ⟨previous, _ | ⟨first, later⟩⟩ := d
  · refine (yields_look fun i h => h.getElem?_nil).next ?_
    have hkind : ¬track.finish.kind = kind := fun heq => hne (heq.symm.trans track.kind_finish)
    dsimp only
    rw [if_neg hkind]
    exact yields_unexpected _ _
  · refine (yields_look fun i h => h.getElem?_cons).next ?_
    exact .ite (fun _ => (yields_move_one _ _ _).next (yields_pure _ _))
      fun _ => yields_unexpected _ _

theorem yields_label? (c : Cursor) :
    Yields track (label? track.tokens) c (.ok (Reader.label? c)) := by
  refine (yields_skipNewlines c).next ?_
  rw [Reader.label?]
  generalize c.skipNewlines = d
  refine (yields_look fun i h => h.kindAt).next ((yields_look fun i h => h.kindAt_succ).next ?_)
  obtain ⟨previous, _ | ⟨first, _ | ⟨second, later⟩⟩⟩ := d
  · exact yields_pure _ _
  · exact .ite_neg (fun hboth => TokenKind.noConfusion hboth.2) (yields_pure _ _)
  · dsimp only
    rw [apply_ite Except.ok]
    refine .ite (fun _ => ?_) fun _ => yields_pure _ _
    refine (yields_look fun i h => h.getElem?_cons).next ?_
    exact (yields_move_one _ _ _).next ((yields_move_one _ _ _).next (yields_pure _ _))

/-- A token of the kind that comes next is taken. -/
theorem token_cons {previous : Option Token} {first : Token} {later : List Token}
    {kind : TokenKind} (hkind : first.kind = kind) (hne : kind ≠ .newline) :
    Reader.token kind ⟨previous, first :: later⟩ = .ok (first, ⟨some first, later⟩) :=
  ((Reader.takesOne_token kind).next (hkind ▸ hne)).mpr ⟨if_pos hkind, rfl⟩

theorem yields_token_cons {previous : Option Token} {first : Token} {later : List Token}
    {kind : TokenKind} (hkind : first.kind = kind) (hne : kind ≠ .newline)
    (hne' : kind ≠ .endOfInput) :
    Yields track (token track.tokens kind) ⟨previous, first :: later⟩
      (.ok (first, ⟨some first, later⟩)) := by
  rw [← token_cons hkind hne]
  exact yields_token hne' _

theorem yields_number {previous : Option Token} {first : Token} {later : List Token}
    (hkind : first.kind = .number) :
    Yields track (number track.tokens) ⟨previous, first :: later⟩
      ((Reader.numeral first).map (·, ⟨some first, later⟩)) := by
  refine (yields_token_cons hkind TokenKind.noConfusion TokenKind.noConfusion).next ?_
  cases Reader.numeral first with
  | error error => exact yields_throw error _
  | ok value => exact yields_pure value _

theorem yields_relation (c : Cursor) :
    Yields track (relation track.tokens) c (Reader.relation c) := by
  refine (yields_skipNewlines c).next ?_
  rw [Reader.relation]
  generalize c.skipNewlines = d
  refine (yields_look fun i h => h.kindAt).next ?_
  obtain ⟨previous, _ | ⟨first, later⟩⟩ := d
  · exact yields_unexpected _ _
  · dsimp only [Cursor.kind]
    cases first.kind with
    | le | ge | eq => exact (yields_move_one _ _ _).next (yields_pure _ _)
    | _ => exact yields_unexpected _ _

theorem yields_value (c : Cursor) : Yields track (value track.tokens) c (Reader.value c) := by
  have hsigns : Yields track (signs track.tokens false) c.skipNewlines
      (.ok (Reader.signs false c.skipNewlines)) := yields_signs Bool.noConfusion
  refine (yields_skipNewlines c).next ?_
  rw [Reader.value]
  generalize Reader.signs false c.skipNewlines = signed at hsigns ⊢
  obtain ⟨negative, previous, _ | ⟨first, later⟩⟩ := signed
  · refine hsigns.next ((yields_look fun i h => h.getElem?_nil).next ?_)
    refine .ite_neg ?_ (.ite_neg ?_ (yields_unexpected _ _))
    · simp [track.kind_finish]
    · simp [isInfinityWord, track.kind_finish]
  · refine hsigns.next ((yields_look fun i h => h.getElem?_cons).next ?_)
    refine .ite (fun hkind => ?_) fun _ => .ite (fun _ => ?_) fun _ => yields_unexpected _ _
    · exact (yields_number hkind).bind_value fun value => yields_pure _ _
    · exact (yields_move_one _ _ _).next (yields_pure _ _)

/-! ## Lists -/

theorem rest_ne_nil_of_not_atBlockEnd {c : Cursor} (h : c.atBlockEnd = false) : c.rest ≠ [] := by
  rintro hnil
  simp [Cursor.atBlockEnd, hnil] at h

section Items

variable {stop : Cursor → Bool} {leave : Cursor → Cursor} {first p : Reader α}

/-- A turn that reads one more item; the first item of all may be read in a way of its own. -/
def itemTurn (stop : Cursor → Bool) (leave : Cursor → Cursor) (first p : Reader α)
    (earlier : List α) (c : Cursor) : Except ParseError ((List α ⊕ List α) × Cursor) :=
  if stop c then .ok (.inr earlier, leave c)
  else (if earlier.isEmpty then first else p) c >>= fun found =>
    .ok (.inl (earlier ++ [found.1]), found.2)

/-- What is read behind earlier items, up to where they stop and then to where that leaves. -/
def itemsBehind (stop : Cursor → Bool) (leave : Cursor → Cursor) (first p : Reader α)
    (hp : Reader.Shortens p) (earlier : List α) (c : Cursor) :
    Except ParseError (List α × Cursor) :=
  if stop c.skipNewlines then .ok (earlier, leave c.skipNewlines)
  else
    (if earlier.isEmpty then first else p) c.skipNewlines >>= fun found =>
      Reader.manyUntil stop p hp found.2 >>= fun later =>
        .ok (earlier ++ found.1 :: later.1, leave later.2)

theorem itemsBehind_nil (hp : Reader.Shortens p) (c : Cursor) :
    itemsBehind stop leave p p hp [] c =
      Reader.manyUntil stop p hp c >>= fun found => .ok (found.1, leave found.2) := by
  rw [itemsBehind, Reader.manyUntil_eq, ite_self]
  split
  · rfl
  · simp only [bind_assoc]
    rfl

theorem itemsBehind_append (hp : Reader.Shortens p) (earlier : List α) (x : α) (c : Cursor) :
    itemsBehind stop leave first p hp (earlier ++ [x]) c =
      Reader.manyUntil stop p hp c >>= fun later =>
        .ok (earlier ++ x :: later.1, leave later.2) := by
  have hne : (earlier ++ [x]).isEmpty = false := by simp
  have hassoc (y : α) (ys : List α) : earlier ++ [x] ++ y :: ys = earlier ++ x :: y :: ys := by
    simp
  rw [itemsBehind, Reader.manyUntil_eq, hne]
  split
  · rfl
  · simp only [bind_assoc, hassoc]
    rfl

/-- A loop of turns that each read one more item reads all of them. -/
theorem yields_loop_items {turn : List α → Walk (List α ⊕ List α)}
    (hfirst : Reader.Shortens first) (hp : Reader.Shortens p)
    (hturn : ∀ earlier c,
      Yields track (turn earlier) c (itemTurn stop leave first p earlier c.skipNewlines))
    (c : Cursor) : Yields track (loop turn []) c (itemsBehind stop leave first p hp [] c) := by
  refine yields_loop (fun _ _ => True) (itemsBehind stop leave first p hp) (fun earlier c _ => ?_)
    [] c trivial
  have hread := hturn earlier c
  by_cases hstop : stop c.skipNewlines = true
  · rw [itemTurn, if_pos hstop] at hread
    exact .leaves hread (if_pos hstop)
  rw [itemTurn, if_neg hstop] at hread
  cases hfound : (if earlier.isEmpty then first else p) c.skipNewlines with
  | error error =>
      rw [hfound] at hread
      refine .fails hread ?_
      rw [itemsBehind, if_neg hstop, hfound]
      rfl
  | ok found =>
      have hshortens : Reader.Shortens (if earlier.isEmpty then first else p) := by
        split
        · exact hfirst
        · exact hp
      rw [hfound] at hread
      refine .goesOn hread ?_ trivial ?_
      · exact Nat.lt_of_lt_of_le (hshortens _ _ _ hfound) (Cursor.length_skipNewlines_le c)
      · rw [itemsBehind_append, itemsBehind, if_neg hstop, hfound]
        rfl

theorem yields_items {stops : Nat → Bool} {item : List α → Walk α}
    (hfirst : Reader.Shortens first) (hp : Reader.Shortens p)
    (hstops : ∀ c i, c.StandsAt track i → stops i = stop c)
    (hitem : ∀ earlier c, c.kind ≠ .newline → stop c = false →
      Yields track (item earlier) c ((if earlier.isEmpty then first else p) c)) (c : Cursor) :
    Yields track (items track.tokens stops item) c (itemsBehind stop id first p hp [] c) := by
  refine yields_loop_items hfirst hp (fun earlier c => (yields_skipNewlines c).next ?_) c
  have hne := c.kind_skipNewlines_ne
  generalize c.skipNewlines = c at hne ⊢
  refine (yields_look (hstops c)).next (.ite (fun _ => yields_pure _ c) fun hgoes => ?_)
  exact (hitem earlier c hne (Bool.eq_false_iff.mpr hgoes)).bind fun _ d _ => yields_pure _ d

end Items

/-! ## Expressions -/

theorem yields_operand (start : Span) (negative : Bool) (c : Cursor) :
    Yields track (operand track.tokens start negative) c (Reader.operand start negative c) := by
  refine (yields_look fun i h => h.kindAt).next ?_
  obtain ⟨previous, _ | ⟨first, later⟩⟩ := c
  · exact yields_unexpected _ _
  rw [Reader.operand]
  dsimp only [Cursor.kind]
  split
  · next hkind =>
      rw [if_pos hkind]
      refine (yields_number hkind).bind_value fun value => ?_
      refine (yields_look fun i h => h.kindAt).next ?_
      cases later with
      | nil => exact yields_pure _ _
      | cons second later =>
          refine .ite (fun hident => ?_) fun _ => yields_pure _ _
          exact (yields_token_cons hident TokenKind.noConfusion TokenKind.noConfusion).next
            (yields_pure _ _)
  · next hkind =>
      have hnot : first.kind ≠ .number := by simp [hkind]
      rw [if_neg hnot, if_pos hkind]
      exact (yields_token_cons hkind TokenKind.noConfusion TokenKind.noConfusion).next
        (yields_pure _ _)
  · next hnumber hident =>
      rw [if_neg hnumber, if_neg hident]
      exact yields_unexpected _ _

theorem yields_summand (earlier : List Summand) {c : Cursor} (hne : c.kind ≠ .newline)
    (hrest : c.rest ≠ []) :
    Yields track (summand track.tokens earlier) c (Reader.summand (!earlier.isEmpty) c) := by
  have hsigns : Yields track (signs track.tokens true) c (.ok (Reader.signs true c)) :=
    yields_signs fun _ => hne
  refine (yields_look fun i h => h.spanAt hrest).next ?_
  refine (yields_look fun i h => h.signAt).next ?_
  rw [Reader.summand]
  by_cases hsign : c.atSign = true
  · refine hsigns.next (.ite (fun hmissing => ?_) fun _ => ?_)
    · simp [hsign] at hmissing
    · rw [if_pos hsign]
      exact yields_operand _ _ _
  · have hnone : Reader.signs true c = (false, c) :=
      signsFrom_of_not_atSign hsign (fun _ => hne) false
    rw [hnone] at hsigns
    rw [if_neg hsign]
    exact hsigns.next (.ite (fun _ => yields_unexpected _ _) fun _ => yields_operand _ _ _)

/-- An expression is what is read of its summands, the first of which needs no sign. -/
theorem expr_eq_itemsBehind (c : Cursor) :
    Reader.expr c =
      itemsBehind Reader.atExprEnd id (Reader.summand false) (Reader.summand true)
        (Reader.summand_shortens true) [] c >>= fun found => .ok (exprOf found.1, found.2) := by
  rw [Reader.expr, itemsBehind]
  dsimp only
  split
  · rfl
  · cases hfirst : Reader.summand false c.skipNewlines with
    | error error => simp [hfirst, bind, Except.bind]
    | ok found =>
        simp only [hfirst, List.isEmpty_nil, if_true, Reader.ok_bind]
        cases Reader.manyUntil Reader.atExprEnd (Reader.summand true)
          (Reader.summand_shortens true) found.2 <;> rfl

theorem yields_expr (c : Cursor) : Yields track (expr track.tokens) c (Reader.expr c) := by
  have hstops (c : Cursor) (i : Nat) (h : c.StandsAt track i) :
      (relationAt track.tokens i || endsBlock track.tokens i) = Reader.atExprEnd c := by
    rw [h.relationAt, h.endsBlock, Reader.atExprEnd]
  have hitem (earlier : List Summand) (c : Cursor) (hne : c.kind ≠ .newline)
      (hgoes : Reader.atExprEnd c = false) : Yields track (summand track.tokens earlier) c
        ((if earlier.isEmpty then Reader.summand false else Reader.summand true) c) := by
    have hrest := rest_ne_nil_of_not_atBlockEnd (Bool.or_eq_false_iff.mp hgoes).2
    cases earlier with
    | nil => exact yields_summand [] hne hrest
    | cons x earlier => exact yields_summand (x :: earlier) hne hrest
  rw [expr_eq_itemsBehind]
  exact (yields_items (Reader.summand_shortens false) (Reader.summand_shortens true)
    hstops hitem c).bind fun _ _ _ => yields_pure _ _

/-! ## Rows and bounds -/

/-- What was read over some tokens ends with the last of them. -/
theorem yields_place {c d : Cursor} (hreaches : c.Reaches d)
    (hlt : d.rest.length < c.rest.length) (start : Span) :
    Yields track (place track.tokens start) d (.ok (⟨start.start, d.lastStop⟩, d)) := by
  obtain ⟨run, hreads⟩ := hreaches
  have hlast := List.getLast?_eq_some_getLast (hreads.ne_nil hlt)
  have hread : d.previous ≠ none := by simp [hreads.previous, hlast]
  exact yields_look fun i h => by rw [h.lastStop hread]

theorem yields_place_of_value {c d : Cursor} {value : Binary64}
    (h : Reader.value c = .ok (value, d)) (start : Span) :
    Yields track (place track.tokens start) d (.ok (⟨start.start, d.lastStop⟩, d)) :=
  yields_place (Reader.value_reaches h) (Reader.value_shortens _ _ _ h) start

theorem yields_row {c : Cursor} (hrest : c.rest ≠ []) :
    Yields track (row track.tokens) c (Reader.row c) := by
  refine (yields_look fun i h => h.spanAt hrest).next ?_
  rw [Reader.row]
  refine (yields_label? c).next ?_
  refine (yields_expr _).bind fun expr d _ => ?_
  refine (yields_relation d).bind fun relation e _ => ?_
  refine (yields_value e).bind fun value f hvalue => ?_
  exact (yields_place_of_value hvalue _).next (yields_pure _ f)

theorem yields_valueFirstBound (start : Span) (c : Cursor) :
    Yields track (valueFirstBound track.tokens start) c (Reader.valueFirstBound start.start c) := by
  refine (yields_value c).bind fun first d _ => ?_
  refine (yields_relation d).bind fun inner e _ => ?_
  refine (yields_token TokenKind.noConfusion e).bind fun name f hname => ?_
  refine (yields_look fun i h => h.relationAt).next (.ite (fun _ => ?_) fun _ => ?_)
  · refine (yields_relation f).bind fun outer g _ => ?_
    refine (yields_value g).bind fun second last hvalue => ?_
    exact (yields_place_of_value hvalue _).next (yields_pure _ last)
  · exact (yields_place (Reader.token_reaches hname) (Reader.token_shortens _ _ _ _ hname) _).next
      (yields_pure _ f)

theorem yields_nameFirstBound (start : Span) (c : Cursor) :
    Yields track (nameFirstBound track.tokens start) c (Reader.nameFirstBound start.start c) := by
  refine (yields_token TokenKind.noConfusion c).bind fun name d _ => ?_
  refine (yields_look fun i h => h.any_free).next (.ite (fun hfree => ?_) fun _ => ?_)
  · obtain ⟨previous, _ | ⟨word, later⟩⟩ := d
    · cases hfree
    have hkind : word.kind = .ident := by
      simp only [Reader.atFree, Bool.and_eq_true, decide_eq_true_eq] at hfree
      exact hfree.1
    rw [token_cons hkind TokenKind.noConfusion]
    exact (yields_move_one _ _ _).next ((yields_place (.token previous word later)
      (Nat.lt_succ_self _) start).next (yields_pure _ _))
  · refine (yields_relation d).bind fun relation e _ => ?_
    refine (yields_value e).bind fun value f hvalue => ?_
    exact (yields_place_of_value hvalue _).next (yields_pure _ f)

/-- How a bound begins is told by the first token, and by the second one behind infinity. -/
theorem boundStatement_cons (previous : Option Token) (first : Token) (later : List Token) :
    Reader.boundStatement ⟨previous, first :: later⟩ =
      if first.kind = .plus || first.kind = .minus || first.kind = .number then
        Reader.valueFirstBound first.span.start ⟨previous, first :: later⟩
      else if first.kind = .ident then
        if isInfinityWord first && (Cursor.mk (some first) later).atRelation then
          Reader.valueFirstBound first.span.start ⟨previous, first :: later⟩
        else
          Reader.nameFirstBound first.span.start ⟨previous, first :: later⟩
      else
        .error (Reader.unexpected .boundStatement ⟨previous, first :: later⟩) := by
  rw [Reader.boundStatement, Reader.atBoundValue]
  cases hkind : first.kind <;>
    simp [Cursor.kind, Cursor.span, Cursor.atSign, isInfinityWord, hkind]

theorem yields_boundStatement {c : Cursor} (hrest : c.rest ≠ []) :
    Yields track (boundStatement track.tokens) c (Reader.boundStatement c) := by
  refine (yields_look fun i h => h.spanAt hrest).next ?_
  obtain ⟨previous, _ | ⟨first, later⟩⟩ := c
  · exact absurd rfl hrest
  refine (yields_look fun i h => h.getElem?_cons).next ?_
  have hvalue : Yields track _ _ _ := yields_valueFirstBound first.span ⟨previous, first :: later⟩
  rw [boundStatement_cons]
  refine .ite (fun _ => hvalue) fun _ => .ite (fun _ => ?_) fun _ => yields_unexpected _ _
  refine (yields_look fun i h => h.behind.relationAt).next ?_
  exact .ite (fun _ => hvalue) fun _ => yields_nameFirstBound first.span _

/-- Items of one kind, up to the next section. -/
theorem yields_manyUntil {item : Walk α} {p : Reader α} (hp : Reader.Shortens p)
    (hitem : ∀ c, c.rest ≠ [] → Yields track item c (p c)) (c : Cursor) :
    Yields track (items track.tokens (endsBlock track.tokens) fun _ => item) c
      (Reader.manyUntil Cursor.atBlockEnd p hp c) := by
  have hread : itemsBehind Cursor.atBlockEnd id p p hp [] c =
      Reader.manyUntil Cursor.atBlockEnd p hp c :=
    (itemsBehind_nil hp c).trans (bind_pure _)
  rw [← hread]
  refine yields_items hp hp (fun c i h => h.endsBlock) (fun earlier c _ hgoes => ?_) c
  rw [ite_self]
  exact hitem c (rest_ne_nil_of_not_atBlockEnd hgoes)

theorem yields_rows (c : Cursor) :
    Yields track (rows track.tokens) c
      (Reader.manyUntil Cursor.atBlockEnd Reader.row Reader.row_shortens c) :=
  yields_manyUntil Reader.row_shortens (fun _ => yields_row) c

theorem yields_bounds (c : Cursor) :
    Yields track (bounds track.tokens) c
      (Reader.manyUntil Cursor.atBlockEnd Reader.boundStatement Reader.boundStatement_shortens c) :=
  yields_manyUntil Reader.boundStatement_shortens (fun _ => yields_boundStatement) c

theorem yields_names (c : Cursor) : Yields track (names track.tokens) c (Reader.names c) :=
  (yields_manyUntil (Reader.token_shortens .ident)
    (fun c _ => yields_token TokenKind.noConfusion c) c).bind fun _ d _ => yields_pure _ d

/-! ## Sections -/

theorem yields_objectiveSection (c : Cursor) :
    Yields track (objectiveSection track.tokens) c (Reader.objectiveSection c) := by
  refine (yields_skipNewlines c).next ?_
  rw [Reader.objectiveSection]
  generalize c.skipNewlines = c
  rcases Cursor.keyword?_cases c with ⟨hnone, hnone'⟩ | ⟨keyword, d, run, hsome, hreads, hsome'⟩
  · obtain ⟨start, hstart⟩ := exists_yields_look track (spanAt track.tokens) c
    refine hstart.next ((yields_look (hnone' track)).next ?_)
    dsimp only
    rw [hnone]
    refine (yields_look fun i h => h.kindAt).next ?_
    refine .of_standsAt fun i h => ?_
    simp only [h.kind_eq_endOfInput_iff]
    exact .ite (fun _ => yields_throw _ c) fun _ => yields_unexpected _ c
  · have hlt : d.rest.length < c.rest.length := Cursor.length_keyword?_lt hsome
    have hrest : c.rest ≠ [] := List.ne_nil_of_length_pos (Nat.zero_lt_of_lt hlt)
    refine (yields_look fun i h => h.spanAt hrest).next ?_
    refine (yields_look (hsome' track)).next ?_
    dsimp only
    rw [hsome]
    cases keyword with
    | objective sense =>
        refine (yields_move hreads).next ((yields_label? d).next ?_)
        refine (yields_expr _).bind fun expr e hexpr => ?_
        have hreaches : c.Reaches e :=
          Cursor.Reaches.trans ⟨run, hreads⟩
            ((Reader.label?_reaches d).trans (Reader.expr_reaches hexpr))
        have hlt' : e.rest.length < c.rest.length :=
          Nat.lt_of_le_of_lt
            (Nat.le_trans (Reader.expr_advances _ _ _ hexpr) (Reader.label?_advances d)) hlt
        exact (yields_place hreaches hlt' c.span).next (yields_pure _ e)
    | _ => exact yields_throw _ c

/-- What a section keyword opens is a part, unless the keyword ends the document. -/
theorem yields_opened? {c d : Cursor} {keyword : SectionKeyword}
    (hkeyword : c.keyword? = some (keyword, d)) (hne : keyword ≠ .finish) :
    Yields track (opened? track.tokens c.span keyword) d
      (Prod.map some id <$> Reader.part c) := by
  rw [Reader.part, hkeyword]
  cases keyword with
  | subjectTo =>
      dsimp only
      rw [map_bind]
      exact (yields_rows d).bind fun _ e _ => yields_pure _ e
  | bounds =>
      dsimp only
      rw [map_bind]
      exact (yields_bounds d).bind fun _ e _ => yields_pure _ e
  | generals | binaries =>
      dsimp only
      rw [map_bind]
      exact (yields_names d).bind fun _ e _ => yields_pure _ e
  | objective sense => exact yields_throw _ d
  | finish => exact absurd rfl hne

/-- Behind the keyword that ends a document, or at the end of the input. -/
def leave (c : Cursor) : Cursor :=
  (c.keyword?.map Prod.snd).getD c

theorem yields_part (earlier : List Part) (c : Cursor) :
    Yields track (part track.tokens earlier) c
      (itemTurn Reader.atDocumentEnd leave Reader.part Reader.part earlier c.skipNewlines) := by
  refine (yields_skipNewlines c).next ?_
  generalize c.skipNewlines = c
  rw [itemTurn, ite_self]
  refine (yields_look fun i h => h.kindAt).next (.of_standsAt fun i h => ?_)
  simp only [h.kind_eq_endOfInput_iff]
  by_cases hnil : c.rest.isEmpty = true
  · have hkeyword : c.keyword? = none := by
      simp [Cursor.keyword?, List.isEmpty_iff.mp hnil, Cursor.keywordOf?]
    have hleave : leave c = c := by rw [leave, hkeyword]; rfl
    have hend : Reader.atDocumentEnd c = true := by rw [Reader.atDocumentEnd, hnil]; rfl
    rw [if_pos hend, hleave]
    exact .ite_pos hnil (yields_pure _ c)
  have hrest : c.rest ≠ [] := mt List.isEmpty_iff.mpr hnil
  refine .ite_neg hnil ((yields_look fun i h => h.spanAt hrest).next ?_)
  rcases Cursor.keyword?_cases c with ⟨hnone, hnone'⟩ | ⟨keyword, d, run, hsome, hreads, hsome'⟩
  · have hgoes : ¬Reader.atDocumentEnd c = true := by simp [Reader.atDocumentEnd, hnil, hnone]
    rw [if_neg hgoes, Reader.part, hnone]
    exact (yields_look (hnone' track)).next (yields_unexpected _ c)
  refine (yields_look (hsome' track)).next ((yields_move hreads).next ?_)
  by_cases hfinish : keyword = .finish
  · subst hfinish
    have hleave : leave c = d := by rw [leave, hsome]; rfl
    have hend : Reader.atDocumentEnd c = true := by simp [Reader.atDocumentEnd, hsome]
    rw [if_pos hend, hleave]
    exact (yields_pure none d).next (yields_pure _ d)
  · have hgoes : ¬Reader.atDocumentEnd c = true := by
      simp [Reader.atDocumentEnd, hnil, hsome, hfinish]
    rw [if_neg hgoes]
    exact (yields_opened? hsome hfinish).bind_map fun _ e _ => yields_pure _ e

/-- The sections from a position on, up to behind the end of the document. -/
def partsThrough (c : Cursor) : Except ParseError (List Part × Cursor) :=
  Reader.manyUntil Reader.atDocumentEnd Reader.part Reader.part_shortens c >>= fun found =>
    .ok (found.1, leave found.2)

theorem yields_parts (c : Cursor) :
    Yields track (parts track.tokens) c (partsThrough c) := by
  rw [partsThrough, ← itemsBehind_nil]
  exact yields_loop_items Reader.part_shortens Reader.part_shortens yields_part c

end Walk

end LinearProgram
