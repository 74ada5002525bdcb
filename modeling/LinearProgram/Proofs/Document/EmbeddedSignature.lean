import LinearProgram.Header
import LinearProgram.Proofs.Document.Expressions
import LinearProgram.Proofs.Document.Naturality
import LinearProgram.Proofs.Signature.Comment
import LinearProgram.Proofs.Signature.Header
import LinearProgram.Proofs.Token.Lines

/-!
# Two readers of the embedded signature

A signature is looked for in two ways.  Cutting the header off reads the comments before
the body, and takes one backslash off each; parsing reads every comment of the text, and
takes off all backslashes.  On a text that is parsed the two give the same unless a
comment of the header carries a signature only behind further backslashes, or no comment
of the header carries one and a later comment does.  The main statement is
`Document.signature_eq_split_iff`.
-/

namespace LinearProgram

open Token

namespace Header

/-- The comments in the lines before the body, each without its first backslash. -/
def comments (cs : List Char) : List (List Char) :=
  match _hcomment : commentOf? (firstLine cs) with
  | some comment => comment :: comments (afterLine cs)
  | none => []
termination_by cs.length
decreasing_by exact length_afterLine_lt _hcomment

/-- The signature that a comment carries. -/
def markOf? (comment : List Char) : Option (List Char) :=
  signatureMark? (Text.trim comment)

/-- The signature that a comment carries behind any number of further backslashes. -/
def deepMarkOf? (comment : List Char) : Option (List Char) :=
  markOf? (comment.dropWhile (· = '\\'))

theorem splitChars_fst (cs : List Char) :
    (splitChars cs).1 = (comments cs).findSome? markOf? := by
  fun_induction comments cs with
  | case1 cs comment hcomment ih =>
      rw [splitChars_of_comment hcomment, ih, List.findSome?_cons, markOf?]
      cases signatureMark? (Text.trim comment) <;> rfl
  | case2 cs hcomment =>
      rw [splitChars_of_not_comment hcomment]
      rfl

/-- A mark is found behind any number of backslashes if it is found without looking there. -/
theorem deepMarkOf?_of_markOf? {comment mark : List Char} (h : markOf? comment = some mark) :
    deepMarkOf? comment = some mark := by
  obtain ⟨rest, hstrip, -⟩ := Option.map_eq_some_iff.mp h
  have htrim := Text.stripStart?_eq_some_iff.mp hstrip
  cases comment with
  | nil => exact h
  | cons c cs =>
      by_cases hc : c = '\\'
      · subst hc
        obtain ⟨before, behind, hall, hblank, -⟩ := Text.exists_eq_append_trim ('\\' :: cs)
        rw [htrim] at hall
        cases before with
        | nil => exact absurd (List.cons.inj hall).1 (by decide)
        | cons d before =>
            rw [← (List.cons.inj hall).1] at hblank
            exact absurd (hblank _ List.mem_cons_self) (by decide)
      · rw [deepMarkOf?, List.dropWhile_cons, if_neg (by simpa using hc), h]

theorem signatureOfComment?_comment (comment : List Char) :
    signatureOfComment? (plain .comment (String.ofList ('\\' :: comment))) =
      (deepMarkOf? comment).map String.ofList := by
  rw [signatureOfComment?_of_comment (kind_plain _ _), text_plain, String.toList_ofList]
  rfl

/-! ## Header lines as tokens -/

/-- A line with a comment is the token of the comment, or cannot be read. -/
theorem lexemes_of_comment {cs comment : List Char}
    (h : commentOf? (firstLine cs) = some comment) :
    (∃ breaks, (breaks = [] ∨ breaks = [newline]) ∧
      lexemes cs = plain .comment (String.ofList ('\\' :: comment)) ::
        (breaks ++ lexemes (afterLine cs))) ∨
      ∃ token tokens, lexemes cs = token :: tokens ∧ token.kind = .invalid := by
  obtain ⟨hline, hsplit⟩ := exists_eq_firstLine_append cs
  have htrimmed : Text.trimLeft (firstLine cs) = '\\' :: comment := by
    rw [commentOf?] at h
    split at h
    · next hcons => rw [hcons, Option.some.inj h]
    · cases h
  let blanks := (firstLine cs).takeWhile isBlank
  have hfirst : firstLine cs = blanks ++ '\\' :: comment := by
    rw [← htrimmed]
    exact (List.takeWhile_append_dropWhile).symm
  have hblank : ∀ c ∈ blanks, isBlank c = true := fun c hc => List.mem_takeWhile_imp hc
  rw [hfirst, List.mem_append, List.mem_cons, not_or, not_or] at hline
  obtain ⟨hbreak, -, hcomment⟩ := hline
  rcases hsplit with ⟨hall, hafter⟩ | hall
  · rw [hafter, hall, hfirst, lexemes_nil]
    refine (lexemes_blanks_append hblank hbreak ('\\' :: comment)).imp_left fun hsame => ?_
    exact ⟨[], .inl rfl, hsame.trans (lexemes_comment hcomment)⟩
  · have hlexemes := spells_comment hcomment (afterLine cs)
    rw [List.cons_append, List.append_assoc, List.singleton_append] at hlexemes
    have hcs : cs = blanks ++ ('\\' :: (comment ++ '\n' :: afterLine cs)) := by
      rw [hfirst] at hall
      simpa using hall
    have hblanks := lexemes_blanks_append hblank hbreak ('\\' :: (comment ++ '\n' :: afterLine cs))
    rw [← hcs] at hblanks
    exact hblanks.imp_left fun hsame => ⟨[newline], .inr rfl, hsame.trans hlexemes⟩

end Header

/-! ## Texts that are parsed -/

/-- Tokens that begin with an identifier, comments and line breaks aside. -/
def OpensWithWord (tokens : List Token) : Prop :=
  ∃ token, (Cursor.ofTokens tokens).rest.find? (fun token => token.kind ≠ .newline) = some token ∧
    token.kind = .ident

/-- The signature of a header line comes before those of the lines behind it. -/
theorem findSome?_of_comment {cs comment : List Char} (hopens : OpensWithWord (lexemes cs))
    (h : Header.commentOf? (Header.firstLine cs) = some comment) :
    OpensWithWord (lexemes (Header.afterLine cs)) ∧
      (lexemes cs).findSome? signatureOfComment? =
        ((Header.deepMarkOf? comment).map String.ofList).or
          ((lexemes (Header.afterLine cs)).findSome? signatureOfComment?) := by
  rcases Header.lexemes_of_comment h with
    ⟨breaks, hbreaks, hlexemes⟩ | ⟨token, tokens, hlexemes, hkind⟩
  · constructor
    · rw [OpensWithWord, hlexemes] at hopens
      rcases hbreaks with rfl | rfl <;> exact hopens
    · rw [hlexemes, List.findSome?_cons, Header.signatureOfComment?_comment]
      have hrest : (breaks ++ lexemes (Header.afterLine cs)).findSome? signatureOfComment? =
          (lexemes (Header.afterLine cs)).findSome? signatureOfComment? := by
        rcases hbreaks with rfl | rfl <;> rfl
      rw [hrest]
      cases Header.deepMarkOf? comment <;> rfl
  · obtain ⟨first, hfind, hident⟩ := hopens
    rw [hlexemes, Cursor.ofTokens, List.filter_cons, if_pos (by simp [hkind]),
      List.find?_cons_of_pos (by simp [hkind])] at hfind
    rw [← Option.some.inj hfind, hkind] at hident
    cases hident

/-- The signatures in the comments of a text are those of its header, then of its body. -/
theorem findSome?_signatureOfComment? {cs : List Char} (hopens : OpensWithWord (lexemes cs)) :
    (lexemes cs).findSome? signatureOfComment? =
      (((Header.comments cs).findSome? Header.deepMarkOf?).map String.ofList).or
        ((lexemes (Header.splitChars cs).2).findSome? signatureOfComment?) := by
  fun_induction Header.comments cs with
  | case1 cs comment hcomment ih =>
      obtain ⟨hlater, hfind⟩ := findSome?_of_comment hopens hcomment
      rw [hfind, ih hlater, Header.splitChars_of_comment hcomment, List.findSome?_cons]
      cases Header.deepMarkOf? comment <;> rfl
  | case2 cs hcomment =>
      rw [Header.splitChars_of_not_comment hcomment]
      rfl

theorem find?_of_skipNewlinesFrom {token : Token} {later : List Token}
    {previous : Option Token} {tokens : List Token}
    (h : (Cursor.skipNewlinesFrom previous tokens).rest = token :: later) :
    tokens.find? (fun token => token.kind ≠ .newline) = some token := by
  induction tokens generalizing previous with
  | nil => cases h
  | cons first tokens ih =>
      by_cases hkind : first.kind = .newline
      · rw [Cursor.skipNewlinesFrom_cons_of_eq hkind] at h
        rw [List.find?_cons_of_neg (by simp [hkind]), ih h]
      · rw [Cursor.skipNewlinesFrom_cons_of_ne hkind] at h
        rw [List.find?_cons_of_pos (by simp [hkind]), (List.cons.inj h).1]

/-- A document begins with a word. -/
theorem opensWithWord_of_objectiveSection {tokens : List Token}
    {found : ObjectiveSection × Cursor}
    (h : Reader.objectiveSection (Cursor.ofTokens tokens) = .ok found) : OpensWithWord tokens := by
  have hkind : (Cursor.ofTokens tokens).skipNewlines.kind = .ident := by
    by_contra hne
    rw [Reader.objectiveSection, Cursor.keyword?_eq_none_of_kind_ne hne] at h
    dsimp only at h
    split at h <;> cases h
  rw [Cursor.kind] at hkind
  split at hkind
  · cases hkind
  · next token later hrest => exact ⟨token, find?_of_skipNewlinesFrom hrest, hkind⟩

namespace Document

/-- A parsed document carries the first signature of the header, or else of the body. -/
theorem signature_eq {source : String} {document : Document}
    (hparse : parse source = .ok document) :
    document.signature =
      (((Header.comments source.toList).findSome? Header.deepMarkOf?).map String.ofList).or
        ((scan (Header.split source).2).findSome? signatureOfComment?) := by
  have hplaces (cs : List Char) : (lexemes cs).findSome? signatureOfComment? =
      (scanFrom 0 cs).findSome? signatureOfComment? := by
    rw [lexemes, List.findSome?_map]
    rfl
  have hbare := bareOutcome_ofTokens_map_bare (scan source)
  rw [← parse, hparse] at hbare
  obtain ⟨parsed, hparsed⟩ : ∃ parsed, ofTokens (lexemes source.toList) = .ok parsed := by
    cases houtcome : ofTokens (lexemes source.toList) with
    | ok parsed => exact ⟨parsed, rfl⟩
    | error error =>
        have hwrong : bareOutcome (ofTokens (lexemes source.toList)) = .ok document.bare :=
          hbare.symm
        rw [houtcome] at hwrong
        cases hwrong
  obtain ⟨found, hobjective, -⟩ := Reader.bind_eq_ok_iff.mp hparsed
  obtain ⟨_, -, hdocument⟩ := Reader.bind_eq_ok_iff.mp hparse
  obtain ⟨_, -, hdocument⟩ := Reader.bind_eq_ok_iff.mp hdocument
  have hsignature : document.signature = (scan source).findSome? signatureOfComment? :=
    (congrArg Document.signature (Except.ok.inj hdocument)).symm
  have hall := findSome?_signatureOfComment? (opensWithWord_of_objectiveSection hobjective)
  rw [hplaces, hplaces] at hall
  rw [hsignature, scan, hall, scan, Header.split, String.toList_ofList]

/--
The parser and the header agree on the signature exactly when no comment of the header
carries it only behind further backslashes, and no comment of the body carries one when
the header has none.
-/
theorem signature_eq_split_iff {source : String} {document : Document}
    (hparse : parse source = .ok document) :
    document.signature = (Header.split source).1 ↔
      (Header.comments source.toList).findSome? Header.deepMarkOf? =
        (Header.comments source.toList).findSome? Header.markOf? ∧
      ((Header.split source).1 = none →
        (scan (Header.split source).2).findSome? signatureOfComment? = none) := by
  have hembedded : (Header.split source).1 =
      ((Header.comments source.toList).findSome? Header.markOf?).map String.ofList := by
    rw [Header.split, ← Header.splitChars_fst]
  rw [signature_eq hparse, hembedded]
  generalize (scan (Header.split source).2).findSome? signatureOfComment? = later
  have hdeep : (Header.comments source.toList).findSome? Header.deepMarkOf? = none →
      (Header.comments source.toList).findSome? Header.markOf? = none := by
    simp only [List.findSome?_eq_none_iff]
    intro hnone comment hmem
    by_contra hsome
    obtain ⟨mark, hmark⟩ := Option.ne_none_iff_exists'.mp hsome
    exact absurd (hnone comment hmem) (by rw [Header.deepMarkOf?_of_markOf? hmark]; simp)
  generalize (Header.comments source.toList).findSome? Header.deepMarkOf? = deep at hdeep ⊢
  generalize (Header.comments source.toList).findSome? Header.markOf? = mark at hdeep ⊢
  cases deep with
  | none =>
      rw [hdeep rfl]
      simp
  | some found =>
      cases mark with
      | none => simp
      | some mark => simp [String.ofList_inj]

/-- A document with a signature behind its end. -/
def signedBelow : String :=
  "Minimize\n x\nEnd\n\\ Signature: 0x12\n"

theorem signature_ne_split_signedBelow :
    ∃ document, parse signedBelow = .ok document ∧
      document.signature ≠ (Header.split signedBelow).1 := by
  have hparse : (parse signedBelow).toOption.isSome = true := by decide +kernel
  have hnone : (Header.split signedBelow).1 = none := by decide +kernel
  have hlater : (scan (Header.split signedBelow).2).findSome? signatureOfComment? ≠ none := by
    decide +kernel
  obtain ⟨document, hok⟩ := Reader.exists_of_isSome_toOption hparse
  exact ⟨document, hok, fun heq => hlater (((signature_eq_split_iff hok).mp heq).2 hnone)⟩

end Document

end LinearProgram
