import LinearProgram.Proofs.Model.Comparison
import LinearProgram.Proofs.Signature.Comment
import Mathlib.Logic.Relation

/-!
# Differences of texts

A comparison looks at the lines of two texts that count and tells where these lines first
differ, or that there are more of them in one text.  Lines that do not count, blanks around
lines and carriage returns before line breaks can come and go without any effect on what
is told.  The main statement is `difference?_exact`.
-/

namespace LinearProgram

/-- The difference with the two sides exchanged. -/
def LineDifference.swap : LineDifference → LineDifference
  | line number expected actual => line number actual expected
  | length expected actual => length actual expected

/-! ## Where lines first differ -/

section Lines

variable {number : Nat} {wants gots : List (List Char)}

/-- A difference is told of the first place at which both sides have a line and differ. -/
theorem differenceFrom?_eq_some_iff {difference : LineDifference} :
    differenceFrom? number wants gots = some difference ↔
      ∃ common want got wants' gots', wants = common ++ want :: wants' ∧
        gots = common ++ got :: gots' ∧ want ≠ got ∧
        difference = .line (number + common.length) (String.ofList want) (String.ofList got) := by
  constructor
  · intro h
    induction wants generalizing gots number with
    | nil => exact nomatch h
    | cons want wants ih =>
        obtain _ | ⟨got, gots⟩ := gots
        · exact nomatch h
        rw [differenceFrom?] at h
        split at h
        · next heq =>
            obtain ⟨common, first, second, wants', gots', rfl, rfl, hne, rfl⟩ := ih h
            refine ⟨want :: common, first, second, wants', gots', rfl, ?_, hne, ?_⟩
            · rw [heq, List.cons_append]
            · rw [List.length_cons, Nat.add_assoc, Nat.add_comm 1]
        · next hne =>
            exact ⟨[], want, got, wants, gots, rfl, rfl, hne, (Option.some.inj h).symm⟩
  · rintro ⟨common, want, got, wants', gots', rfl, rfl, hne, rfl⟩
    induction common generalizing number with
    | nil =>
        rw [List.nil_append, List.nil_append, differenceFrom?, if_neg hne]
        rfl
    | cons first common ih =>
        rw [List.cons_append, List.cons_append, differenceFrom?, if_pos rfl, ih, List.length_cons,
          Nat.add_assoc, Nat.add_comm 1]

/-- No difference is told when one side goes on where the other one ends, or both end. -/
theorem differenceFrom?_eq_none_iff :
    differenceFrom? number wants gots = none ↔ wants <+: gots ∨ gots <+: wants := by
  induction wants generalizing gots number with
  | nil => simp [differenceFrom?]
  | cons want wants ih =>
      obtain _ | ⟨got, gots⟩ := gots
      · simp [differenceFrom?]
      rw [differenceFrom?, List.cons_prefix_cons, List.cons_prefix_cons, eq_comm (a := got)]
      by_cases heq : want = got
      · simp [heq, ih]
      · simp [heq]

theorem differenceFrom?_swap (number : Nat) (wants gots : List (List Char)) :
    differenceFrom? number gots wants = (differenceFrom? number wants gots).map .swap := by
  induction wants generalizing gots number with
  | nil => cases gots <;> rfl
  | cons want wants ih =>
      obtain _ | ⟨got, gots⟩ := gots
      · rfl
      rw [differenceFrom?, differenceFrom?]
      by_cases heq : want = got
      · rw [if_pos heq, if_pos heq.symm, ih]
      · rw [if_neg heq, if_neg (Ne.symm heq)]
        rfl

end Lines

/-! ## What is told of two texts -/

section Texts

variable {expected actual : String}

/-- Lines are counted only when no two of them differ. -/
theorem difference?_eq (expected actual : String) : difference? expected actual =
    (differenceFrom? 1 (significantLines expected.toList) (significantLines actual.toList)).or
      (if (significantLines expected.toList).length = (significantLines actual.toList).length
        then none
        else some (.length (significantLines expected.toList).length
          (significantLines actual.toList).length)) := by
  rw [difference?]
  cases differenceFrom? 1 (significantLines expected.toList) (significantLines actual.toList) <;>
    rfl

theorem difference?_eq_none_iff : difference? expected actual = none ↔
    significantLines expected.toList = significantLines actual.toList :=
  ⟨significantLines_eq_of_difference?_eq_none, difference?_eq_none_of_significantLines_eq⟩

theorem difference?_eq_line_iff {number : Nat} {want got : String} :
    difference? expected actual = some (.line number want got) ↔
      ∃ common wants gots, significantLines expected.toList = common ++ want.toList :: wants ∧
        significantLines actual.toList = common ++ got.toList :: gots ∧ want ≠ got ∧
        number = common.length + 1 := by
  rw [difference?_eq, Option.or_eq_some_iff]
  constructor
  · rintro (hfrom | ⟨-, hlength⟩)
    · obtain ⟨common, first, second, wants, gots, hwants, hgots, hne, hline⟩ :=
        differenceFrom?_eq_some_iff.mp hfrom
      obtain ⟨rfl, rfl, rfl⟩ := LineDifference.line.inj hline
      refine ⟨common, wants, gots, ?_, ?_, ?_, Nat.add_comm 1 _⟩
      · rw [String.toList_ofList, hwants]
      · rw [String.toList_ofList, hgots]
      · exact fun heq => hne (String.ofList_injective heq)
    · split at hlength
      · exact nomatch hlength
      · exact nomatch Option.some.inj hlength
  · rintro ⟨common, wants, gots, hwants, hgots, hne, rfl⟩
    refine .inl (differenceFrom?_eq_some_iff.mpr ⟨common, want.toList, got.toList, wants, gots,
      hwants, hgots, fun heq => hne (String.toList_injective heq), ?_⟩)
    rw [String.ofList_toList, String.ofList_toList, Nat.add_comm]

theorem difference?_eq_length_iff {wants gots : Nat} :
    difference? expected actual = some (.length wants gots) ↔
      (significantLines expected.toList <+: significantLines actual.toList ∨
        significantLines actual.toList <+: significantLines expected.toList) ∧
      significantLines expected.toList ≠ significantLines actual.toList ∧
      wants = (significantLines expected.toList).length ∧
      gots = (significantLines actual.toList).length := by
  rw [difference?_eq, Option.or_eq_some_iff]
  constructor
  · rintro (hfrom | ⟨hnone, hlength⟩)
    · obtain ⟨common, first, second, wants', gots', -, -, -, hline⟩ :=
        differenceFrom?_eq_some_iff.mp hfrom
      exact nomatch hline
    · split at hlength
      · exact nomatch hlength
      · next hne =>
          obtain ⟨rfl, rfl⟩ := LineDifference.length.inj (Option.some.inj hlength)
          exact ⟨differenceFrom?_eq_none_iff.mp hnone, fun heq => hne (congrArg _ heq), rfl, rfl⟩
  · rintro ⟨hends, hne, rfl, rfl⟩
    refine .inr ⟨differenceFrom?_eq_none_iff.mpr hends, if_neg fun hlength => hne ?_⟩
    rcases hends with hactual | hexpected
    · exact hactual.eq_of_length hlength
    · exact (hexpected.eq_of_length hlength.symm).symm

theorem difference?_swap (expected actual : String) :
    difference? actual expected = (difference? expected actual).map .swap := by
  rw [difference?_eq, difference?_eq, differenceFrom?_swap, Option.map_or]
  congr 1
  by_cases hlength : (significantLines expected.toList).length =
      (significantLines actual.toList).length
  · rw [if_pos hlength, if_pos hlength.symm]
    rfl
  · rw [if_neg hlength, if_neg (Ne.symm hlength)]
    rfl

theorem equivalence_difference? :
    Equivalence fun expected actual => difference? expected actual = none := by
  constructor
  · exact fun text => difference?_eq_none_iff.mpr rfl
  · exact fun h => difference?_eq_none_iff.mpr (difference?_eq_none_iff.mp h).symm
  · exact fun h h' => difference?_eq_none_iff.mpr
      ((difference?_eq_none_iff.mp h).trans (difference?_eq_none_iff.mp h'))

end Texts

/-! ## Lines of texts -/

namespace Text

/-- A separator cuts a text wherever it stands. -/
theorem splitOn_append_cons (separator : Char) (cs ds : List Char) :
    splitOn separator (cs ++ separator :: ds) = splitOn separator cs ++ splitOn separator ds := by
  induction cs with
  | nil => exact if_pos rfl
  | cons c cs ih =>
      rw [List.cons_append, splitOn, splitOn]
      by_cases hc : c = separator
      · rw [if_pos hc, if_pos hc, ih, List.cons_append]
      · obtain ⟨piece, pieces, hpieces⟩ :=
          List.exists_cons_of_ne_nil (splitOn_ne_nil separator cs)
        rw [if_neg hc, if_neg hc, ih, hpieces]
        rfl

/-- The text with a carriage return before every line break. -/
def toCrlf (cs : List Char) : List Char :=
  cs.flatMap fun c => if c = '\n' then ['\r', '\n'] else [c]

theorem toCrlf_of_not_mem {cs : List Char} (h : '\n' ∉ cs) : toCrlf cs = cs := by
  induction cs with
  | nil => rfl
  | cons c cs ih =>
      rw [List.mem_cons, not_or] at h
      rw [toCrlf, List.flatMap_cons, if_neg (Ne.symm h.1), ← toCrlf, ih h.2]
      rfl

theorem toCrlf_append_newline (cs ds : List Char) :
    toCrlf (cs ++ '\n' :: ds) = toCrlf cs ++ '\r' :: '\n' :: toCrlf ds := by
  rw [toCrlf, List.flatMap_append, List.flatMap_cons, if_pos rfl]
  rfl

end Text

open Text

theorem significantLines_nil : significantLines [] = [] :=
  rfl

theorem significantLines_append_newline (cs ds : List Char) :
    significantLines (cs ++ '\n' :: ds) = significantLines cs ++ significantLines ds := by
  rw [significantLines, splitOn_append_cons, List.map_append, List.filter_append]
  rfl

/-- A single line counts as what is left when it is trimmed. -/
theorem significantLines_eq_of_trim_eq {line line' : List Char} (h : '\n' ∉ line)
    (h' : '\n' ∉ line') (htrim : trim line = trim line') :
    significantLines line = significantLines line' := by
  rw [significantLines, significantLines, splitOn_of_not_mem h, splitOn_of_not_mem h',
    List.map_singleton, List.map_singleton, htrim]

/-- A part of a text that is one of its lines, with what stands before it and behind it. -/
structure IsLine (before line behind : List Char) : Prop where
  begins : before = [] ∨ ∃ cs, before = cs ++ ['\n']
  unbroken : '\n' ∉ line
  ends : behind = [] ∨ ∃ cs, behind = '\n' :: cs

/-- A line that does not count: there are only blanks on it, or it carries a signature. -/
structure IsIdle (line : List Char) : Prop where
  unbroken : '\n' ∉ line
  idle : trim line = [] ∨ isSignatureLine (trim line) = true

/-- Blanks that do not break a line. -/
def IsSpace (cs : List Char) : Prop :=
  ∀ c ∈ cs, isBlank c = true ∧ c ≠ '\n'

/-- What may be done to a text that does not change its lines that count. -/
inductive Touched : List Char → List Char → Prop where
  /-- A line that does not count is put in between two lines or at an end of the text. -/
  | insert {before line behind : List Char} (hline : IsIdle line) :
      Touched (before ++ '\n' :: behind) (before ++ '\n' :: (line ++ '\n' :: behind))
  | insertFirst {line behind : List Char} (hline : IsIdle line) :
      Touched behind (line ++ '\n' :: behind)
  | insertLast {before line : List Char} (hline : IsIdle line) :
      Touched before (before ++ '\n' :: line)
  /-- Blanks are put around a line. -/
  | space {before line behind left right : List Char} (hline : IsLine before line behind)
      (hleft : IsSpace left) (hright : IsSpace right) :
      Touched (before ++ line ++ behind) (before ++ (left ++ line ++ right) ++ behind)
  /-- All lines end with a carriage return. -/
  | crlf (cs : List Char) : Touched cs (toCrlf cs)

theorem IsIdle.significantLines_eq_nil {line : List Char} (h : IsIdle line) :
    significantLines line = [] := by
  rw [significantLines, splitOn_of_not_mem h.unbroken, List.map_singleton]
  apply List.filter_eq_nil_iff.mpr
  intro trimmed hmem
  rw [List.mem_singleton.mp hmem]
  rcases h.idle with hnil | hmark
  · simp [hnil]
  · simp [hmark]

theorem IsLine.significantLines_eq {before line behind : List Char}
    (h : IsLine before line behind) : significantLines (before ++ line ++ behind) =
      significantLines before ++ significantLines line ++ significantLines behind := by
  have hends : significantLines (line ++ behind) =
      significantLines line ++ significantLines behind := by
    rcases h.ends with rfl | ⟨cs, rfl⟩
    · rw [List.append_nil, significantLines_nil, List.append_nil]
    · exact (significantLines_append_newline line cs).trans
        (congrArg _ (significantLines_append_newline [] cs).symm)
  rw [List.append_assoc, List.append_assoc, ← hends]
  rcases h.begins with rfl | ⟨cs, rfl⟩
  · rfl
  · rw [List.append_assoc, List.singleton_append, significantLines_append_newline,
      significantLines_append_newline, significantLines_nil, List.append_nil]

theorem IsLine.space {before line behind left right : List Char} (h : IsLine before line behind)
    (hleft : IsSpace left) (hright : IsSpace right) :
    IsLine before (left ++ line ++ right) behind := by
  refine { h with unbroken := ?_ }
  rw [List.mem_append, List.mem_append, not_or, not_or]
  exact ⟨⟨fun hmem => (hleft _ hmem).2 rfl, h.unbroken⟩, fun hmem => (hright _ hmem).2 rfl⟩

/-- Blanks around a line do not change what counts. -/
theorem IsLine.significantLines_space {before line behind left right : List Char}
    (h : IsLine before line behind) (hleft : IsSpace left) (hright : IsSpace right) :
    significantLines (before ++ (left ++ line ++ right) ++ behind) =
      significantLines (before ++ line ++ behind) := by
  have hspace := h.space hleft hright
  have htrim : trim (left ++ line ++ right) = trim line :=
    trim_blanks_append line (fun c hc => (hleft c hc).1) fun c hc => (hright c hc).1
  rw [h.significantLines_eq, hspace.significantLines_eq,
    significantLines_eq_of_trim_eq hspace.unbroken h.unbroken htrim]

/-- A carriage return before a line break is a blank at the end of the line. -/
theorem significantLines_toCrlf (cs : List Char) :
    significantLines (toCrlf cs) = significantLines cs := by
  by_cases hmem : '\n' ∈ cs
  · obtain ⟨line, rest, hsplit, hline⟩ := List.eq_append_cons_of_mem hmem
    have hfirst : IsLine [] line ('\n' :: toCrlf rest) := ⟨.inl rfl, hline, .inr ⟨_, rfl⟩⟩
    have hnone : IsSpace [] := fun c hc => absurd hc List.not_mem_nil
    have hreturn : IsSpace ['\r'] := by
      intro c hc
      rw [List.mem_singleton.mp hc]
      decide
    have hsame := hfirst.significantLines_space hnone hreturn
    rw [hsplit, toCrlf_append_newline, toCrlf_of_not_mem hline, significantLines_append_newline,
      ← significantLines_toCrlf rest, ← significantLines_append_newline]
    simpa using hsame
  · rw [toCrlf_of_not_mem hmem]
termination_by cs.length
decreasing_by
  rw [hsplit, List.length_append, List.length_cons]
  omega

/-- Whatever is done to a text in this way, its lines that count stay the same. -/
theorem Touched.significantLines_eq {cs ds : List Char} (h : Touched cs ds) :
    significantLines cs = significantLines ds := by
  cases h with
  | insert hline =>
      rw [significantLines_append_newline, significantLines_append_newline,
        significantLines_append_newline, hline.significantLines_eq_nil, List.nil_append]
  | insertFirst hline =>
      rw [significantLines_append_newline, hline.significantLines_eq_nil, List.nil_append]
  | insertLast hline =>
      rw [significantLines_append_newline, hline.significantLines_eq_nil, List.append_nil]
  | space hline hleft hright => exact (hline.significantLines_space hleft hright).symm
  | crlf => exact (significantLines_toCrlf cs).symm

/-- The same holds however often a text is touched, and when this is undone. -/
theorem significantLines_eq_of_touched {cs ds : List Char} (h : Relation.EqvGen Touched cs ds) :
    significantLines cs = significantLines ds := by
  induction h with
  | rel cs ds htouched => exact htouched.significantLines_eq
  | refl cs => rfl
  | symm cs ds _ ih => exact ih.symm
  | trans cs ds es _ _ ih ih' => exact ih.trans ih'

/--
What a comparison tells of two texts.  There is no difference exactly when the lines that
count are the same; a difference of lines is that of the first two that differ, with its
place; a difference of lengths is told exactly when one side goes on where the other one
ends.  Having no difference is an equivalence, exchanging the texts exchanges the sides, and
touching a text, as often as one likes, changes nothing.
-/
theorem difference?_exact (expected actual : String) :
    (difference? expected actual = none ↔
        significantLines expected.toList = significantLines actual.toList) ∧
      (∀ number want got, difference? expected actual = some (.line number want got) ↔
        ∃ common wants gots, significantLines expected.toList = common ++ want.toList :: wants ∧
          significantLines actual.toList = common ++ got.toList :: gots ∧ want ≠ got ∧
          number = common.length + 1) ∧
      (∀ wants gots, difference? expected actual = some (.length wants gots) ↔
        (significantLines expected.toList <+: significantLines actual.toList ∨
          significantLines actual.toList <+: significantLines expected.toList) ∧
        significantLines expected.toList ≠ significantLines actual.toList ∧
        wants = (significantLines expected.toList).length ∧
        gots = (significantLines actual.toList).length) ∧
      (Equivalence fun text other => difference? text other = none) ∧
      difference? actual expected = (difference? expected actual).map .swap ∧
      ∀ expected' actual', Relation.EqvGen Touched expected.toList expected'.toList →
        Relation.EqvGen Touched actual.toList actual'.toList →
        difference? expected' actual' = difference? expected actual := by
  refine ⟨difference?_eq_none_iff, fun _ _ _ => difference?_eq_line_iff,
    fun _ _ => difference?_eq_length_iff, equivalence_difference?,
    difference?_swap expected actual, ?_⟩
  intro expected' actual' hexpected hactual
  rw [difference?_eq, difference?_eq, significantLines_eq_of_touched hexpected,
    significantLines_eq_of_touched hactual]

/-- A text under a signature with other line ends still differs in its second line. -/
theorem difference?_exact_signed :
    Relation.EqvGen Touched "Minimize\n x\nEnd\n".toList
        "\\ Signature: 0\r\nMinimize\r\n x\r\nEnd\r\n".toList ∧
      difference? "Minimize\n x\nEnd\n" "Minimize\n y\nEnd" = some (.line 2 "x" "y") ∧
      difference? "\\ Signature: 0\r\nMinimize\r\n x\r\nEnd\r\n" "Minimize\n y\nEnd" =
        some (.line 2 "x" "y") := by
  have hidle : IsIdle "\\ Signature: 0".toList := ⟨by decide, .inr (by decide)⟩
  have hsigned : Touched "Minimize\n x\nEnd\n".toList
      "\\ Signature: 0\nMinimize\n x\nEnd\n".toList := .insertFirst hidle
  have htouched : Relation.EqvGen Touched "Minimize\n x\nEnd\n".toList
      "\\ Signature: 0\r\nMinimize\r\n x\r\nEnd\r\n".toList :=
    .trans _ _ _ (.rel _ _ hsigned) (.rel _ _ (.crlf _))
  obtain ⟨-, -, -, -, -, hsame⟩ := difference?_exact "Minimize\n x\nEnd\n" "Minimize\n y\nEnd"
  have hline : difference? "Minimize\n x\nEnd\n" "Minimize\n y\nEnd" = some (.line 2 "x" "y") := by
    decide +kernel
  refine ⟨htouched, hline, ?_⟩
  rw [hsame _ _ htouched (.refl _), hline]

end LinearProgram
