import LinearProgram.Comparison
import LinearProgram.Proofs.Model.Comparison
import LinearProgram.Proofs.Model.Parsing
import LinearProgram.Proofs.Signature.Digits
import LinearProgram.Proofs.Signature.Header

/-!
# Written texts verify

The header of a written text consists of comment lines, and its body begins with the
words of the objective, so cutting the header off gives the body that was signed.  The
signature in the header is therefore found to be that of the body.  A text without it has
the same significant lines.  The main statement is `Reachable.verify_write`.
-/

namespace LinearProgram

/-! ## Headers -/

namespace Model

theorem splitChars_banner (rest : List Char) :
    Header.splitChars (banner ++ '\n' :: rest) = Header.splitChars rest := by
  have hmark : signatureMark? (Text.trim " LP format - for model browsing.".toList) = none := by
    decide
  have hline : '\n' ∉ " LP format - for model browsing.".toList := by decide
  have hsplit := Header.splitChars_comment_line hline rest
  rw [hmark, Option.none_or] at hsplit
  exact hsplit

/-- Cutting off a written header gives the signature in it and the text behind it. -/
theorem splitChars_header (options : WriteOptions) {body : List Char}
    (hbody : Header.commentOf? (Header.firstLine body) = none) :
    Header.splitChars (header options body ++ body) =
      ((headerSignature options body).map String.toList, body) := by
  have hplain := Header.splitChars_of_not_comment hbody
  rw [header, headerSignature]
  cases options.signature with
  | false =>
      rw [if_neg Bool.false_ne_true, if_neg Bool.false_ne_true, List.append_assoc,
        List.singleton_append, splitChars_banner]
      exact hplain
  | true =>
      let signature := Signature.ofText (String.ofList body)
      have hline : '\n' ∉ " Signature: ".toList ++ signature.chars := by
        rw [List.mem_append, not_or]
        exact ⟨by decide, signature.newline_not_mem_chars⟩
      have hsigned := Header.splitChars_comment_line hline body
      rw [signatureMark?_written, hplain] at hsigned
      rw [if_pos rfl, if_pos rfl, Option.map_some, Signature.text, String.toList_ofList,
        List.append_assoc, List.cons_append, splitChars_banner]
      simpa using hsigned

theorem split_header (options : WriteOptions) {body : List Char}
    (hbody : Header.commentOf? (Header.firstLine body) = none) :
    Header.split (String.ofList (header options body ++ body)) =
      (headerSignature options body, String.ofList body) := by
  have hofList : String.ofList ∘ String.toList = id := funext fun _ => String.ofList_toList
  rw [Header.split, String.toList_ofList, splitChars_header options hbody]
  dsimp only
  rw [Option.map_map, hofList, Option.map_id, id]

/-- The signature that a header carries is that of the body, if it carries one. -/
theorem ofText_header (options : WriteOptions) {body : List Char}
    (hbody : Header.commentOf? (Header.firstLine body) = none) :
    SignatureCheck.ofText (String.ofList (header options body ++ body)) =
      if options.signature then .matching (Signature.ofText (String.ofList body))
      else .missing (Signature.ofText (String.ofList body)) := by
  rw [SignatureCheck.ofText, split_header options hbody, headerSignature]
  cases options.signature with
  | false => rfl
  | true =>
      rw [if_pos rfl, if_pos rfl]
      dsimp only
      rw [Signature.parse_text]
      exact if_pos rfl

/-! ## Significant lines -/

theorem isSignatureLine_written (signature : Signature) :
    isSignatureLine (Text.trim ("\\ Signature: ".toList ++ signature.chars)) = true := by
  have hcons : "\\ Signature: ".toList ++ signature.chars =
      '\\' :: (' ' :: 'S' :: "ignature: ".toList ++ signature.chars) := rfl
  have htrim : Text.trim ("\\ Signature: ".toList ++ signature.chars) =
      "\\ Signature: ".toList ++ signature.chars := by
    rw [Text.trim, hcons, Text.trimLeft_of_not_blank (by decide), ← hcons]
    exact Text.trimRight_append _ signature.chars_ne_nil fun c hc =>
      Signature.isBlank_of_mem_chars hc
  have hstrip : Text.stripStart? "Signature:".toList
      ('S' :: "ignature: ".toList ++ signature.chars) = some (' ' :: signature.chars) :=
    Text.stripStart?_eq_some_iff.mpr rfl
  rw [htrim, hcons, isSignatureLine, List.cons_append, Text.trimLeft_of_blank (by decide),
    List.cons_append, Text.trimLeft_of_not_blank (by decide), ← List.cons_append, signatureMark?,
    hstrip]
  rfl

/-- The signature in a header is not among the significant lines. -/
theorem significantLines_header (options : WriteOptions) (body : List Char) :
    significantLines (header options body ++ body) =
      significantLines (banner ++ '\n' :: body) := by
  have hbanner : '\n' ∉ banner := by decide
  rw [header]
  cases options.signature with
  | false => rw [if_neg Bool.false_ne_true, List.append_assoc, List.singleton_append]
  | true =>
      let signature := Signature.ofText (String.ofList body)
      have hline : '\n' ∉ "\\ Signature: ".toList ++ signature.chars := by
        rw [List.mem_append, not_or]
        exact ⟨by decide, signature.newline_not_mem_chars⟩
      rw [if_pos rfl, List.append_assoc, List.cons_append, List.append_assoc,
        List.singleton_append, significantLines, significantLines, Text.splitOn_append hbanner,
        Text.splitOn_append hbanner, Text.splitOn_append hline]
      simp only [List.map_cons, List.filter_cons, isSignatureLine_written, Bool.not_true,
        Bool.and_false, Bool.false_eq_true, if_false]

end Model

/-! ## Bodies -/

theorem WriteOptions.fill_signature (options : WriteOptions) (signature : Bool) (used : Nat)
    (pieces : List (List Char)) :
    { options with signature }.fill used pieces = options.fill used pieces := by
  induction pieces generalizing used with
  | nil => rfl
  | cons piece pieces ih => rw [fill, fill, ih, ih]

/-- The text of a document does not depend on the header that it will have. -/
theorem Document.bodyText_signature (document : Document) (options : WriteOptions)
    (signature : Bool) :
    document.bodyText { options with signature } = document.bodyText options := by
  have hafter (start : List Char) (pieces : List (List Char)) :
      { options with signature }.linesAfter start pieces = options.linesAfter start pieces := by
    rw [WriteOptions.linesAfter, options.fill_signature, WriteOptions.linesAfter]
  have hfrom (start : List Char) (pieces : List (List Char)) :
      { options with signature }.linesFrom start pieces = options.linesFrom start pieces := by
    cases pieces with
    | nil => rfl
    | cons piece pieces => exact hafter _ pieces
  have hrow : Row.text { options with signature } = Row.text options :=
    funext fun row => hafter _ _
  have hnames (title : String) (names : List (List Char)) :
      Model.namesSection { options with signature } title names =
        Model.namesSection options title names := by
    cases names with
    | nil => rfl
    | cons name names => exact congrArg (title.toList ++ '\n' :: ·) (hfrom _ _)
  rw [bodyText, bodyText, hfrom, hrow, hnames, hnames]

/-- The text of a document does not begin with a comment. -/
theorem Document.commentOf?_bodyText (document : Document) (options : WriteOptions) :
    Header.commentOf? (Header.firstLine (document.bodyText options)) = none := by
  have hline : '\n' ∉ (Model.senseKeyword document.objective.sense).toList := by
    cases document.objective.sense <;> decide
  have hword : Header.commentOf? (Model.senseKeyword document.objective.sense).toList = none := by
    cases document.objective.sense <;> decide
  simp only [bodyText, List.append_assoc, List.cons_append]
  rw [Header.firstLine_append hline, hword]

/-- The text of a document goes from the words of the objective to the end. -/
theorem Document.bodyText_ends (document : Document) (options : WriteOptions) :
    (Model.senseKeyword document.objective.sense).toList ++ ['\n'] <+:
        document.bodyText options ∧
      "End\n".toList <:+ document.bodyText options := by
  constructor
  · simp only [bodyText, List.append_assoc, List.cons_append]
    exact (List.prefix_append_right_inj _).mpr ⟨_, rfl⟩
  · exact List.suffix_append _ _

namespace Model

variable {model : Model}

/--
Written texts verify, if they can be held.  Cutting the header off a written text gives the
body, whose signature the header carries or misses, and the texts with and without it have
no difference.
-/
theorem Reachable.verify_write
    (h : model.Reachable) (hissues : model.issues = [])
    {options : WriteOptions} (hfits : model.FitsStorage options) :
    ∃ objective body text, model.objective = some objective ∧
      model.body options = .ok body ∧
      (senseKeyword objective.sense).toList ++ ['\n'] <+: body ∧ "End\n".toList <:+ body ∧
      model.write options = .ok text ∧
      Header.split text = (headerSignature options body, String.ofList body) ∧
      SignatureCheck.ofText text =
        (if options.signature then .matching (Signature.ofText (String.ofList body))
        else .missing (Signature.ofText (String.ofList body))) ∧
      ∀ signature : Bool, model.FitsStorage { options with signature } →
        ∃ other, model.write { options with signature } = .ok other ∧
          difference? text other = none ∧ difference? other text = none := by
  have hwellFormed := h.wellFormed
  obtain ⟨hsome, hterms⟩ := hwellFormed.issues_eq_nil_iff.mp hissues
  obtain ⟨objective, hobjective⟩ := Option.isSome_iff_exists.mp hsome
  let document := model.documentWith objective options.declaredNames none
  let body := document.bodyText options
  have hbody : model.body options = .ok body :=
    hwellFormed.body_eq hobjective hterms options none
  obtain ⟨hstart, hstop⟩ := document.bodyText_ends options
  have hplain := document.commentOf?_bodyText options
  refine ⟨objective, body, _, hobjective, hbody, hstart, hstop, write_eq hissues hfits hbody,
    split_header options hplain, ofText_header options hplain, fun signature hfits' => ?_⟩
  have hother : model.body { options with signature } = .ok body := by
    rw [hwellFormed.body_eq hobjective hterms _ none]
    exact congrArg Except.ok (document.bodyText_signature options signature)
  have hsame : significantLines (header options body ++ body) =
      significantLines (header { options with signature } body ++ body) := by
    rw [significantLines_header, significantLines_header]
  refine ⟨_, write_eq hissues hfits' hother, ?_, ?_⟩
  all_goals
    apply difference?_eq_none_of_significantLines_eq
    rw [String.toList_ofList, String.toList_ofList]
  · exact hsame
  · exact hsame.symm

/-- The usual options without a signature. -/
def unsigned : WriteOptions :=
  { WriteOptions.default with signature := false }

theorem verify_write_diet :
    diet.Reachable ∧ diet.issues = [] ∧ diet.FitsStorage .default ∧ diet.FitsStorage unsigned ∧
      ∃ text actual other, diet.write .default = .ok text ∧
        SignatureCheck.ofText text = .matching actual ∧
        diet.write unsigned = .ok other ∧ difference? text other = none := by
  have hunsigned : diet.FitsStorage unsigned :=
    fitsStorage_of_body (by decide) (by decide +kernel)
  refine ⟨reachable_run _, diet_issues, diet_fitsStorage, hunsigned, ?_⟩
  obtain ⟨_, body, text, -, -, -, -, hwrite, -, hcheck, hothers⟩ :=
    Reachable.verify_write (reachable_run _) diet_issues diet_fitsStorage
  obtain ⟨other, hother, hsame, -⟩ := hothers false hunsigned
  exact ⟨text, _, other, hwrite, hcheck, hother, hsame⟩

/-- With an indentation that no text can hold there is no text to verify. -/
theorem not_forall_verify_write :
    ¬∀ (model : Model) (options : WriteOptions), model.Reachable → model.issues = [] →
      ∃ body text, model.write options = .ok text ∧
        (Header.split text).2 = String.ofList body := by
  intro hall
  obtain ⟨_, text, hwrite, -⟩ := hall diet tooWide (reachable_run _) diet_issues
  rw [write_eq_overflow diet_issues (by decide)] at hwrite
  cases hwrite

end Model

end LinearProgram
