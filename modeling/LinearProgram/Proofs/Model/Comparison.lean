import LinearProgram.Proofs.Document.Assembly
import LinearProgram.Proofs.Document.GuardedSections
import LinearProgram.Proofs.Document.LineTokens
import LinearProgram.Proofs.Document.Spacing

/-!
# Comparison and reading

Two texts without a difference have the same lines that count.  What a text is read as
depends on these lines only: the document that they spell together, each behind a line
break, denotes the model that is read from the text.  The main statement is
`Model.eq_of_difference?_eq_none`.
-/

namespace LinearProgram

open Token

/-! ## Differences -/

theorem eq_of_differenceFrom?_eq_none {number : Nat} {wants gots : List (List Char)}
    (hlength : wants.length = gots.length) (h : differenceFrom? number wants gots = none) :
    wants = gots := by
  induction wants generalizing gots number with
  | nil => exact (List.length_eq_zero_iff.mp hlength.symm).symm
  | cons want wants ih =>
      obtain _ | ⟨got, gots⟩ := gots
      · exact absurd hlength (Nat.succ_ne_zero _)
      rw [differenceFrom?] at h
      split at h
      · next heq => rw [heq, ih (Nat.succ.inj hlength) h]
      · cases h

/-- Texts without a difference have the same lines that count. -/
theorem significantLines_eq_of_difference?_eq_none {expected actual : String}
    (h : difference? expected actual = none) :
    significantLines expected.toList = significantLines actual.toList := by
  rw [difference?] at h
  split at h
  · cases h
  · next hnone =>
      split at h
      · next hlength => exact eq_of_differenceFrom?_eq_none hlength hnone
      · cases h

theorem differenceFrom?_self (number : Nat) (lines : List (List Char)) :
    differenceFrom? number lines lines = none := by
  induction lines generalizing number with
  | nil => rfl
  | cons line lines ih => rw [differenceFrom?, if_pos rfl, ih]

theorem difference?_eq_none_of_significantLines_eq {expected actual : String}
    (h : significantLines expected.toList = significantLines actual.toList) :
    difference? expected actual = none := by
  rw [difference?, h, differenceFrom?_self]
  exact if_pos rfl

/-! ## Documents of lines -/

namespace Document

/-- A text is parsed as what the tokens of its lines spell. -/
theorem exists_sectionsFrom_lineTokens {source : String} {document : Document}
    (hparse : parse source = .ok document) :
    ∃ signature, sectionsFrom signature
      ⟨none, collapse (lineTokens (Text.splitOn '\n' source.toList))⟩ = .ok document.bare := by
  let signature := (scan source).findSome? signatureOfComment?
  have hcode : collapse (code source.toList) =
      collapse ((scan source).filter fun token => token.kind ≠ .comment ∧
        token.kind ≠ .endOfInput) := by
    apply collapse_eq_of_map_bare_eq
    rw [code, lexemes, List.filter_map, List.map_map]
    rfl
  have hsections : sectionsFrom signature ⟨none, collapse (code source.toList)⟩ =
      .ok document.bare := by
    have hnatural := sectionsFrom_collapsed signature (Cursor.ofTokens (scan source))
    rw [← ofTokens_eq, ← parse, hparse] at hnatural
    rw [hcode]
    exact hnatural
  refine ⟨signature, ?_⟩
  rw [← newline_cons_code, ← hsections]
  have hbreak := sectionsFrom_collapsed signature ⟨none, newline :: code source.toList⟩
  rw [sectionsFrom_newline, ← sectionsFrom_collapsed] at hbreak
  exact hbreak

end Document

/-! ## Models of lines -/

namespace Model

variable {document : Document} {model next : Model}

theorem validNames_of_declareAll {order : List String}
    (hok : declareAll document model order = .ok next) : ValidNames order := by
  induction order generalizing model with
  | nil => exact validNames_nil
  | cons name order ih =>
      rw [declareAll_cons] at hok
      obtain ⟨⟨declared, id⟩, hdeclare, hlater⟩ := Reader.bind_eq_ok_iff.mp hok
      obtain ⟨hdeclares, -⟩ := declare_eq_ok_iff.mp (completed_eq_ok_iff.mp hdeclare)
      exact List.forall_mem_cons.mpr ⟨hdeclares.valid, ih hlater⟩

/-- A document that denotes a model mentions only valid names. -/
theorem validNames_of_ofDocument {beginning : String}
    (hok : ofDocument document beginning = .ok model) : ValidNames document.mentions := by
  rw [ofDocument] at hok
  split at hok
  · cases hok
  · cases hassemble : assemble beginning document with
    | error error =>
        rw [hassemble] at hok
        cases hok
    | ok assembled =>
        rw [assemble] at hassemble
        obtain ⟨declared, hdeclared, -⟩ := Reader.bind_eq_ok_iff.mp hassemble
        exact fun name hname =>
          validNames_of_declareAll hdeclared name ((Document.mem_declarationOrder _).mpr hname)

/-- What is read from a text is denoted by the document of its lines that count. -/
theorem exists_document_of_read {source : String} (hread : read source = .ok model) :
    ∃ document, ofDocument document defaultRowBeginning = .ok model ∧
      Document.sectionsFrom none
        ⟨none, collapse (lineTokens (significantLines source.toList) ++ [newline])⟩ =
          .ok document := by
  rw [read] at hread
  split at hread
  · cases hread
  next parsed hparse =>
    obtain ⟨signature, hsections⟩ := Document.exists_sectionsFrom_lineTokens hparse
    have hlines := alike_lineTokens fun line (hmem : line ∈ Text.splitOn '\n' source.toList) =>
      Text.not_mem_of_mem_splitOn hmem
    have halike : Cursor.Alike ⟨none, collapse (lineTokens (Text.splitOn '\n' source.toList))⟩
        ⟨none, collapse (keptTokens (Text.splitOn '\n' source.toList))⟩ :=
      ⟨hlines, fun _ => rfl, rfl, rfl⟩
    have hnames : ValidNames parsed.bare.mentions := by
      rw [Document.mentions_bare]
      exact validNames_of_ofDocument hread
    have hbare : ofDocument parsed.bare defaultRowBeginning = .ok model := by
      rw [Document.ofDocument_bare, hread]
    exact ⟨{ parsed.bare with signature := none }, hbare,
      Document.sectionsFrom_of_alike halike hsections hnames none⟩

/-- Texts without a difference that can both be read are read as the same model. -/
theorem eq_of_difference?_eq_none {expected actual : String} {first second : Model}
    (hdifference : difference? expected actual = none) (hfirst : read expected = .ok first)
    (hsecond : read actual = .ok second) : first = second := by
  obtain ⟨document, hdenotes, hsections⟩ := exists_document_of_read hfirst
  obtain ⟨document', hdenotes', hsections'⟩ := exists_document_of_read hsecond
  rw [significantLines_eq_of_difference?_eq_none hdifference, hsections'] at hsections
  obtain rfl := Except.ok.inj hsections
  exact Except.ok.inj (hdenotes.symm.trans hdenotes')

def cheapest : String :=
  "Minimize\n x + 2 y\nSubject To\n need: x + y >= 1\nEnd\n"

/-- The same lines under a signature, with other blanks around them. -/
def cheapestSigned : String :=
  "\\ Signature: 00\n\nMinimize\n\tx + 2 y \n\nSubject To\nneed: x + y >= 1\n\nEnd"

theorem eq_of_difference?_cheapest :
    difference? cheapest cheapestSigned = none ∧ ∃ first second,
      read cheapest = .ok first ∧ read cheapestSigned = .ok second ∧ first = second := by
  have hdifference : difference? cheapest cheapestSigned = none := by decide +kernel
  have hread : (read cheapest).toOption.isSome = true := by decide +kernel
  have hread' : (read cheapestSigned).toOption.isSome = true := by decide +kernel
  obtain ⟨first, hfirst⟩ := Reader.exists_of_isSome_toOption hread
  obtain ⟨second, hsecond⟩ := Reader.exists_of_isSome_toOption hread'
  exact ⟨hdifference, first, second, hfirst, hsecond,
    eq_of_difference?_eq_none hdifference hfirst hsecond⟩

end Model

end LinearProgram
