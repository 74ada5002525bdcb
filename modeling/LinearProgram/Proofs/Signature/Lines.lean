import LinearProgram.Proofs.Signature.Comment
import LinearProgram.Proofs.Signature.Header

/-!
# Header lines of LP text

The header of a text is the comment lines in front, each with the line break behind it, and
the body is everything from the first other line on.  The signature is that of the first
header line that carries one.  A comment line can hence be put among the header lines
without any effect on the check, unless it carries a signature and no line before it does.
The main statement is `Header.split_exact`.
-/

namespace LinearProgram

namespace Text

/-- The lines of a text, each with the line break that ends it. -/
def lines : List Char → List (List Char)
  | [] => []
  | c :: cs =>
    if c = '\n' then [c] :: lines cs
    else match lines cs with
      | [] => [[c]]
      | line :: later => (c :: line) :: later

/-- A line with a line break at its end. -/
def IsEnded (line : List Char) : Prop :=
  ∃ front, '\n' ∉ front ∧ line = front ++ ['\n']

theorem lines_append_newline {line : List Char} (h : '\n' ∉ line) (rest : List Char) :
    lines (line ++ '\n' :: rest) = (line ++ ['\n']) :: lines rest := by
  induction line with
  | nil => exact if_pos rfl
  | cons c line ih =>
      rw [List.mem_cons, not_or] at h
      rw [List.cons_append, lines, if_neg (Ne.symm h.1), ih h.2]
      rfl

theorem lines_of_not_mem {line : List Char} (hne : line ≠ []) (h : '\n' ∉ line) :
    lines line = [line] := by
  induction line with
  | nil => exact absurd rfl hne
  | cons c line ih =>
      rw [List.mem_cons, not_or] at h
      rw [lines, if_neg (Ne.symm h.1)]
      cases line with
      | nil => rfl
      | cons d line => rw [ih (List.cons_ne_nil d line) h.2]

theorem flatten_lines (cs : List Char) : (lines cs).flatten = cs := by
  induction cs with
  | nil => rfl
  | cons c cs ih =>
      rw [lines]
      split
      · rw [List.flatten_cons, ih, List.singleton_append]
      · generalize lines cs = later at ih ⊢
        cases later with
        | nil => rw [← ih, List.flatten_singleton, List.flatten_nil]
        | cons line later => rw [← ih, List.flatten_cons, List.flatten_cons, List.cons_append]

end Text

namespace Header

open Text (lines IsEnded)

/-! ## Comment lines -/

/-- A line whose first character that is not blank is a backslash. -/
def IsComment (line : List Char) : Prop :=
  line.find? (fun c => !isBlank c) = some '\\'

instance : DecidablePred IsComment :=
  fun line => inferInstanceAs (Decidable (line.find? (fun c => !isBlank c) = some '\\'))

/-- A comment line with a signature behind its first backslash. -/
def Carries (line mark : List Char) : Prop :=
  ∃ blanks comment rest, line = blanks ++ '\\' :: comment ∧ (∀ c ∈ blanks, isBlank c = true) ∧
    Text.trim comment = "Signature:".toList ++ rest ∧ mark = Text.trim rest

/-- The comment lines at the beginning of a text. -/
def commentLines (cs : List Char) : List (List Char) :=
  (lines cs).takeWhile fun line => decide (IsComment line)

/-- The signature that a line carries. -/
def lineMark? (line : List Char) : Option (List Char) :=
  (commentOf? line).bind fun comment => signatureMark? (Text.trim comment)

theorem commentOf?_eq_some_iff {line comment : List Char} :
    commentOf? line = some comment ↔
      ∃ blanks, line = blanks ++ '\\' :: comment ∧ ∀ c ∈ blanks, isBlank c = true := by
  constructor
  · intro h
    have htrim : Text.trimLeft line = '\\' :: comment := by
      rw [commentOf?] at h
      split at h
      · next hcons => rw [hcons, Option.some.inj h]
      · exact absurd h.symm (Option.some_ne_none _)
    refine ⟨line.takeWhile isBlank, ?_, fun c hc => List.mem_takeWhile_imp hc⟩
    rw [← htrim]
    exact List.takeWhile_append_dropWhile.symm
  · rintro ⟨blanks, rfl, hblanks⟩
    have htrim : Text.trimLeft (blanks ++ '\\' :: comment) = '\\' :: comment := by
      rw [Text.trimLeft, List.dropWhile_append_of_pos hblanks]
      exact List.dropWhile_cons_of_neg (by decide)
    simp only [commentOf?, htrim]

theorem lineMark?_eq_some_iff {line mark : List Char} :
    lineMark? line = some mark ↔ Carries line mark := by
  rw [lineMark?, Option.bind_eq_some_iff]
  constructor
  · rintro ⟨comment, hcomment, hmark⟩
    obtain ⟨blanks, hline, hblanks⟩ := commentOf?_eq_some_iff.mp hcomment
    obtain ⟨rest, hrest, hmark⟩ := Option.map_eq_some_iff.mp hmark
    exact ⟨blanks, comment, rest, hline, hblanks, Text.stripStart?_eq_some_iff.mp hrest,
      hmark.symm⟩
  · rintro ⟨blanks, comment, rest, hline, hblanks, htrim, rfl⟩
    refine ⟨comment, commentOf?_eq_some_iff.mpr ⟨blanks, hline, hblanks⟩, ?_⟩
    rw [signatureMark?, Text.stripStart?_eq_some_iff.mpr htrim, Option.map_some]

theorem lineMark?_eq_none_iff {line : List Char} :
    lineMark? line = none ↔ ∀ mark, ¬ Carries line mark := by
  rw [Option.eq_none_iff_forall_ne_some]
  exact forall_congr' fun mark => not_congr lineMark?_eq_some_iff

theorem isComment_iff {line : List Char} :
    IsComment line ↔ ∃ comment, commentOf? line = some comment := by
  rw [IsComment, List.find?_eq_some_iff_append]
  constructor
  · rintro ⟨-, blanks, comment, rfl, hblanks⟩
    refine ⟨comment, commentOf?_eq_some_iff.mpr ⟨blanks, rfl, fun c hc => ?_⟩⟩
    simpa using hblanks c hc
  · rintro ⟨comment, hcomment⟩
    obtain ⟨blanks, rfl, hblanks⟩ := commentOf?_eq_some_iff.mp hcomment
    exact ⟨by decide, blanks, comment, rfl, fun c hc => by simp [hblanks c hc]⟩

theorem not_isComment_iff {line : List Char} : ¬ IsComment line ↔ commentOf? line = none := by
  rw [isComment_iff, Option.eq_none_iff_forall_ne_some, not_exists]

/-- The line break at the end of a line is a blank, so it belongs to the comment. -/
theorem commentOf?_append_newline (line : List Char) :
    commentOf? (line ++ ['\n']) = (commentOf? line).map (· ++ ['\n']) := by
  ext comment
  rw [commentOf?_eq_some_iff, Option.map_eq_some_iff]
  constructor
  · rintro ⟨blanks, hline, hblanks⟩
    obtain rfl | ⟨front, last, rfl⟩ := comment.eq_nil_or_concat
    · exact absurd (List.append_inj_right' hline rfl) (by decide)
    · rw [List.concat_eq_append, ← List.cons_append, ← List.append_assoc] at hline
      obtain ⟨hfront, hlast⟩ := List.append_inj' hline rfl
      refine ⟨front, commentOf?_eq_some_iff.mpr ⟨blanks, hfront, hblanks⟩, ?_⟩
      rw [hlast, List.concat_eq_append]
  · rintro ⟨front, hfront, rfl⟩
    obtain ⟨blanks, rfl, hblanks⟩ := commentOf?_eq_some_iff.mp hfront
    exact ⟨blanks, by rw [List.append_assoc, List.cons_append], hblanks⟩

/-- The line break at the end of a line does not count for its signature. -/
theorem lineMark?_append_newline (line : List Char) :
    lineMark? (line ++ ['\n']) = lineMark? line := by
  rw [lineMark?, lineMark?, commentOf?_append_newline]
  cases commentOf? line with
  | none => rfl
  | some comment =>
      have hbreak : ∀ c ∈ ['\n'], isBlank c = true :=
        List.forall_mem_singleton.mpr (by decide)
      have htrim : Text.trim (comment ++ ['\n']) = Text.trim comment :=
        Text.trim_blanks_append comment (List.forall_mem_nil _) hbreak
      rw [Option.map_some, Option.bind_some, Option.bind_some, htrim]

theorem isComment_append_newline {line : List Char} :
    IsComment (line ++ ['\n']) ↔ IsComment line := by
  rw [isComment_iff, isComment_iff, commentOf?_append_newline, ← Option.isSome_iff_exists,
    ← Option.isSome_iff_exists, Option.isSome_map]

/-! ## The cut -/

/-- A text is empty or begins with its first line, with or without a line break. -/
theorem lines_eq_firstLine_cons {cs : List Char} (hne : cs ≠ []) :
    ∃ ending, (ending = [] ∨ ending = ['\n']) ∧
      lines cs = (firstLine cs ++ ending) :: lines (afterLine cs) := by
  obtain ⟨hline, ⟨hall, hafter⟩ | hall⟩ := exists_eq_firstLine_append cs
  · refine ⟨[], .inl rfl, ?_⟩
    rw [hafter, List.append_nil, ← hall]
    rw [← hall] at hline
    exact Text.lines_of_not_mem hne hline
  · refine ⟨['\n'], .inr rfl, ?_⟩
    rw [← Text.lines_append_newline hline, ← hall]

theorem isComment_firstLine {cs ending : List Char} (h : ending = [] ∨ ending = ['\n']) :
    IsComment (firstLine cs ++ ending) ↔ IsComment (firstLine cs) := by
  rcases h with rfl | rfl
  · rw [List.append_nil]
  · exact isComment_append_newline

theorem lineMark?_firstLine {cs ending : List Char} (h : ending = [] ∨ ending = ['\n']) :
    lineMark? (firstLine cs ++ ending) = lineMark? (firstLine cs) := by
  rcases h with rfl | rfl
  · rw [List.append_nil]
  · exact lineMark?_append_newline _

theorem ne_nil_of_commentOf? {cs comment : List Char}
    (h : commentOf? (firstLine cs) = some comment) : cs ≠ [] := by
  rintro rfl
  exact nomatch h

/-- A comment in the first line is the first of the comment lines. -/
theorem exists_commentLine {cs comment : List Char}
    (h : commentOf? (firstLine cs) = some comment) :
    ∃ line, lines cs = line :: lines (afterLine cs) ∧
      commentLines cs = line :: commentLines (afterLine cs) ∧
      lineMark? line = signatureMark? (Text.trim comment) := by
  obtain ⟨ending, hending, hlines⟩ := lines_eq_firstLine_cons (ne_nil_of_commentOf? h)
  have hfirst : IsComment (firstLine cs ++ ending) :=
    (isComment_firstLine hending).mpr (isComment_iff.mpr ⟨comment, h⟩)
  refine ⟨firstLine cs ++ ending, hlines, ?_, ?_⟩
  · rw [commentLines, hlines, List.takeWhile_cons, if_pos (decide_eq_true hfirst), commentLines]
  · rw [lineMark?_firstLine hending, lineMark?, h, Option.bind_some]

/-- No comment line stands at the beginning of a text whose first line is none. -/
theorem not_isComment_head {cs : List Char} (h : commentOf? (firstLine cs) = none) :
    ∀ line ∈ (lines cs).head?, ¬ IsComment line := by
  intro line hmem
  by_cases hnil : cs = []
  · subst hnil
    exact nomatch hmem
  obtain ⟨ending, hending, hlines⟩ := lines_eq_firstLine_cons hnil
  rw [hlines, List.head?_cons, Option.mem_some] at hmem
  rw [← hmem, isComment_firstLine hending, not_isComment_iff]
  exact h

theorem commentLines_of_not_comment {cs : List Char} (h : commentOf? (firstLine cs) = none) :
    commentLines cs = [] := by
  have hhead := not_isComment_head h
  rw [commentLines]
  generalize lines cs = all at hhead
  cases all with
  | nil => rfl
  | cons line later =>
      have hline : ¬ IsComment line := hhead line (Option.mem_some_self line)
      rw [List.takeWhile_cons, if_neg (by simpa using hline)]

/-- The body of a text begins with a line that is no comment, if it has any line. -/
theorem commentOf?_splitChars_snd (cs : List Char) :
    commentOf? (firstLine (splitChars cs).2) = none := by
  fun_induction splitChars cs with
  | case1 cs comment hcomment later body hrec ih =>
      rw [hrec] at ih
      exact ih
  | case2 cs hcomment => exact hcomment

/-- The lines of a text are its comment lines, then those of its body. -/
theorem lines_eq_append (cs : List Char) :
    lines cs = commentLines cs ++ lines (splitChars cs).2 := by
  fun_induction splitChars cs with
  | case1 cs comment hcomment later body hrec ih =>
      obtain ⟨line, hlines, hheader, -⟩ := exists_commentLine hcomment
      rw [hrec] at ih
      rw [hlines, hheader, List.cons_append, ← ih]
  | case2 cs hcomment => rw [commentLines_of_not_comment hcomment, List.nil_append]

/-- The signature found is that of the first comment line with one. -/
theorem splitChars_fst_eq_findSome? (cs : List Char) :
    (splitChars cs).1 = (commentLines cs).findSome? lineMark? := by
  fun_induction splitChars cs with
  | case1 cs comment hcomment later body hrec ih =>
      obtain ⟨line, -, hheader, hmark⟩ := exists_commentLine hcomment
      rw [hrec] at ih
      rw [hheader, List.findSome?_cons, hmark, ← ih]
      cases signatureMark? (Text.trim comment) <;> rfl
  | case2 cs hcomment => rw [commentLines_of_not_comment hcomment, List.findSome?_nil]

/-- Comment lines in front of a text that begins with another line are its header. -/
theorem splitChars_flatten_append {header : List (List Char)} {body : List Char}
    (hended : ∀ line ∈ header, IsEnded line) (hcomments : ∀ line ∈ header, IsComment line)
    (hbody : commentOf? (firstLine body) = none) :
    splitChars (header.flatten ++ body) = (header.findSome? lineMark?, body) := by
  induction header with
  | nil => exact splitChars_of_not_comment hbody
  | cons line header ih =>
      rw [List.forall_mem_cons] at hended hcomments
      obtain ⟨⟨front, hfront, rfl⟩, hended⟩ := hended
      obtain ⟨comment, hcomment⟩ :=
        isComment_iff.mp (isComment_append_newline.mp hcomments.1)
      have hall : ((front ++ ['\n']) :: header).flatten ++ body =
          front ++ '\n' :: (header.flatten ++ body) := by
        rw [List.flatten_cons, List.append_assoc, List.append_assoc, List.singleton_append]
      have hfirst : commentOf? (firstLine (front ++ '\n' :: (header.flatten ++ body))) =
          some comment := by
        rw [firstLine_append hfront, hcomment]
      rw [hall, splitChars_of_comment hfirst, afterLine_append hfront, ih hended hcomments.2,
        List.findSome?_cons, lineMark?_append_newline, lineMark?, hcomment, Option.bind_some]
      cases signatureMark? (Text.trim comment) <;> rfl

/-! ## What the cut says -/

/-- How a text falls into its header and its body, and which signature the header has. -/
structure Cuts (text : String) (embedded : Option String) (body : String) : Prop where
  /-- The body stands behind the comment lines. -/
  suffix : text.toList = (commentLines text.toList).flatten ++ body.toList
  /-- The body begins where a line begins. -/
  boundary : lines text.toList = commentLines text.toList ++ lines body.toList
  comments : ∀ line ∈ commentLines text.toList, IsComment line
  /-- The first line of the body is no comment line. -/
  maximal : ∀ line ∈ (lines body.toList).head?, ¬ IsComment line
  /-- The signature is that of the first line that carries one. -/
  carried : ∀ mark, embedded = some mark ↔
    ∃ before line after, commentLines text.toList = before ++ line :: after ∧
      Carries line mark.toList ∧ ∀ earlier ∈ before, ∀ mark, ¬ Carries earlier mark
  absent : embedded = none ↔ ∀ line ∈ commentLines text.toList, ∀ mark, ¬ Carries line mark

theorem cuts_split (text : String) : Cuts text (split text).1 (split text).2 := by
  have hembedded : (split text).1 =
      ((commentLines text.toList).findSome? lineMark?).map String.ofList := by
    rw [← splitChars_fst_eq_findSome?]
    rfl
  have hbody : (split text).2.toList = (splitChars text.toList).2 := String.toList_ofList
  have hlines : lines text.toList =
      commentLines text.toList ++ lines (split text).2.toList := by
    rw [hbody]
    exact lines_eq_append text.toList
  refine ⟨?_, hlines, ?_, ?_, ?_, ?_⟩
  · have hflatten := congrArg List.flatten hlines
    rw [List.flatten_append, Text.flatten_lines, Text.flatten_lines] at hflatten
    exact hflatten
  · intro line hmem
    rw [commentLines] at hmem
    simpa using List.mem_takeWhile_imp hmem
  · rw [hbody]
    exact not_isComment_head (commentOf?_splitChars_snd text.toList)
  · intro mark
    have hmark : (split text).1 = some mark ↔
        (commentLines text.toList).findSome? lineMark? = some mark.toList := by
      rw [hembedded, Option.map_eq_some_iff]
      constructor
      · rintro ⟨found, hfound, rfl⟩
        rw [hfound, String.toList_ofList]
      · intro hfound
        exact ⟨mark.toList, hfound, String.ofList_toList⟩
    rw [hmark, List.findSome?_eq_some_iff]
    simp only [lineMark?_eq_some_iff, lineMark?_eq_none_iff]
  · rw [hembedded, Option.map_eq_none_iff, List.findSome?_eq_none_iff]
    simp only [lineMark?_eq_none_iff]

/-- Another comment line in the header is as good as none if it stands behind the signature. -/
theorem findSome?_lineMark?_insert {before after : List (List Char)} {inserted : List Char}
    (h : (∃ line ∈ before, ∃ mark, Carries line mark) ∨ ∀ mark, ¬ Carries inserted mark) :
    (before ++ inserted :: after).findSome? lineMark? =
      (before ++ after).findSome? lineMark? := by
  rw [List.findSome?_append, List.findSome?_append]
  rcases h with ⟨line, hmem, mark, hmark⟩ | hnone
  · have hsome : (before.findSome? lineMark?).isSome :=
      List.findSome?_isSome_iff.mpr
        ⟨line, hmem, Option.isSome_of_eq_some (lineMark?_eq_some_iff.mpr hmark)⟩
    obtain ⟨found, hfound⟩ := Option.isSome_iff_exists.mp hsome
    rw [hfound, Option.some_or, Option.some_or]
  · rw [List.findSome?_cons, lineMark?_eq_none_iff.mpr hnone]

/-- A text with one more line in its header. -/
def withLine (before : List (List Char)) (line : List Char) (after : List (List Char))
    (body : String) : String :=
  String.ofList ((before ++ line :: after).flatten ++ body.toList)

/--
The header of a text is the comment lines in front of the first other line, and the
signature is that of the first one that carries any.  A further comment line, put anywhere
among lines of the header that end in a line break, leaves the signature, the body and the
outcome of the check as they are, if a line before it carries a signature or it carries
none.
-/
theorem split_exact (text : String) :
    Cuts text (split text).1 (split text).2 ∧
      ∀ before after line, commentLines text.toList = before ++ after →
        (∀ header ∈ before ++ after, IsEnded header) → IsEnded line → IsComment line →
        ((∃ earlier ∈ before, ∃ mark, Carries earlier mark) ∨ ∀ mark, ¬ Carries line mark) →
        split (withLine before line after (split text).2) = split text ∧
          SignatureCheck.ofText (withLine before line after (split text).2) =
            SignatureCheck.ofText text := by
  refine ⟨cuts_split text, ?_⟩
  intro before after line hheader hended hline hcomment hharmless
  have hbody : (split text).2.toList = (splitChars text.toList).2 := String.toList_ofList
  have hmem (header : List Char) (h : header ∈ before ++ line :: after) :
      IsEnded header ∧ IsComment header := by
    rw [List.mem_append, List.mem_cons, or_left_comm, ← List.mem_append] at h
    rcases h with rfl | hold
    · exact ⟨hline, hcomment⟩
    · exact ⟨hended header hold, (cuts_split text).comments header (hheader ▸ hold)⟩
  have hsplit : split (withLine before line after (split text).2) = split text := by
    rw [split, withLine, String.toList_ofList, hbody,
      splitChars_flatten_append (fun header h => (hmem header h).1)
        (fun header h => (hmem header h).2) (commentOf?_splitChars_snd text.toList),
      findSome?_lineMark?_insert hharmless, ← hheader, ← splitChars_fst_eq_findSome?]
    rfl
  refine ⟨hsplit, ?_⟩
  rw [SignatureCheck.ofText, hsplit]
  rfl

/-- A text with a signature between two other comments. -/
def signedText : String :=
  "\\ a model\n \\ Signature: 0x12\n\\ by hand\nMinimize\n x\nEnd\n"

/-- The same text with a second signature behind the first one. -/
def signedTwice : String :=
  "\\ a model\n \\ Signature: 0x12\n\\Signature: 0x34\n\\ by hand\nMinimize\n x\nEnd\n"

/-- The second signature is passed over. -/
theorem split_signedTwice :
    split signedTwice = split signedText ∧
      SignatureCheck.ofText signedTwice = SignatureCheck.ofText signedText := by
  have hended (front : List Char) (h : '\n' ∉ front) : IsEnded (front ++ ['\n']) :=
    ⟨front, h, rfl⟩
  have hfirst : IsEnded "\\ a model\n".toList := hended "\\ a model".toList (by decide)
  have hsigned : IsEnded " \\ Signature: 0x12\n".toList :=
    hended " \\ Signature: 0x12".toList (by decide)
  have hagain : IsEnded "\\Signature: 0x34\n".toList :=
    hended "\\Signature: 0x34".toList (by decide)
  have hlast : IsEnded "\\ by hand\n".toList := hended "\\ by hand".toList (by decide)
  have hcarries : Carries " \\ Signature: 0x12\n".toList "0x12".toList :=
    lineMark?_eq_some_iff.mp (by decide +kernel)
  have hlonger : withLine ["\\ a model\n".toList, " \\ Signature: 0x12\n".toList]
      "\\Signature: 0x34\n".toList ["\\ by hand\n".toList] (split signedText).2 = signedTwice := by
    decide +kernel
  rw [← hlonger]
  apply (split_exact signedText).2
  · decide +kernel
  · simp only [List.cons_append, List.nil_append, List.forall_mem_cons]
    exact ⟨hfirst, hsigned, hlast, fun line hmem => absurd hmem List.not_mem_nil⟩
  · exact hagain
  · decide +kernel
  · exact .inl ⟨_, List.mem_cons_of_mem _ List.mem_cons_self, _, hcarries⟩

end Header

end LinearProgram
