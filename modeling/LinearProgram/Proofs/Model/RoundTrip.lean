import LinearProgram.Proofs.Model.Correspondence
import LinearProgram.Proofs.Model.Writing

/-!
# Reading what is written

The text of a valid model is read back exactly when every right-hand side is finite once
the constant of its expression has been taken across.  What is read is then the same
linear program, and with declared names it is written as the same text.
-/

namespace LinearProgram

namespace Model

variable {model : Model}

/-! ## What is read -/

theorem read_eq_ofDocument_bare
    {text : String} {document : Document} (hparse : Document.parse text = .ok document) :
    read text = ofDocument document.bare defaultRowBeginning := by
  rw [read, hparse, Document.ofDocument_bare]

theorem ofDocument_documentWith_signature
    (model : Model) (objective : Objective) (declaredNames : Bool) (signature : Option String) :
    ofDocument (model.documentWith objective declaredNames signature) defaultRowBeginning =
      ofDocument (model.documentWith objective declaredNames none) defaultRowBeginning :=
  rfl

/-- The text of a valid model is read as the document that the model denotes. -/
theorem WellFormed.read_of_write
    (h : model.WellFormed) {options : WriteOptions} {text : String}
    (hwrite : model.write options = .ok text) {objective : Objective}
    (hobjective : model.objective = some objective) :
    read text = ofDocument (model.documentWith objective options.declaredNames none)
      defaultRowBeginning := by
  obtain ⟨hissues, body, hbody, rfl⟩ := exists_body_of_write hwrite
  obtain ⟨found, document, hfound, hparse, hbare⟩ :=
    h.exists_parse_body hissues options hobjective
  obtain rfl : found = body := Except.ok.inj (hfound.symm.trans hbody)
  rw [read_eq_ofDocument_bare hparse, hbare, ofDocument_documentWith_signature]

theorem WellFormed.read_eq_reread
    (h : model.WellFormed)
    (hfinite : ∀ entry ∈ model.constraints, entry.effectiveRhs.isFinite = true)
    {options : WriteOptions} {text : String} (hwrite : model.write options = .ok text)
    {objective : Objective} (hobjective : model.objective = some objective) :
    read text = .ok (model.reread objective options.declaredNames) := by
  rw [h.read_of_write hwrite hobjective,
    h.ofDocument_documentWith hobjective hfinite options.declaredNames]

/-- A document can only be read if its right-hand sides are finite. -/
theorem finite_of_ofDocument_documentWith
    {objective : Objective} {declaredNames : Bool} {again : Model}
    (hread : ofDocument (model.documentWith objective declaredNames none) defaultRowBeginning =
      .ok again) :
    ∀ entry ∈ model.constraints, entry.effectiveRhs.isFinite = true := by
  intro entry hentry
  obtain ⟨index, hindex⟩ := List.mem_iff_getElem?.mp hentry
  have hrow : model.writtenRow declaredNames entry index ∈
      (model.documentWith objective declaredNames none).rows :=
    mem_rows_documentWith_iff.mpr ⟨index, entry, hindex, rfl⟩
  have hrhs := (reachable_ofDocument hread).2 _ hrow
  exact (Binary64.isFinite_dropZeroSign _).symm.trans hrhs

/-! ## Writing again -/

theorem WellFormed.issues_reread
    (h : model.WellFormed) (hissues : model.issues = [])
    {objective : Objective} {declaredNames : Bool}
    (hagain : (model.reread objective declaredNames).WellFormed) :
    (model.reread objective declaredNames).issues = [] := by
  refine hagain.issues_eq_nil_iff.mpr ⟨rfl, ?_⟩
  intro other hother
  rw [h.constraints_reread] at hother
  obtain ⟨⟨entry, index⟩, hmem, rfl⟩ := List.mem_map.mp hother
  have hentry := List.mem_of_getElem? (List.mem_zipIdx_iff_getElem?.mp hmem)
  have hterms := (h.issues_eq_nil_iff.mp hissues).2 entry hentry
  have hmoved : (model.rereadConstraint objective declaredNames (entry, index)).expr.terms =
      movedTerms (model.rereadPlace objective declaredNames) entry.expr :=
    terms_resolved_writtenTerms _ _
  rw [LinearExpr.isEmpty, hmoved, movedTerms, List.isEmpty_map]
  exact hterms

/-- A model that denotes the same document is written with the same body. -/
theorem WellFormed.body_reread
    (h : model.WellFormed) (hissues : model.issues = [])
    (hfinite : ∀ entry ∈ model.constraints, entry.effectiveRhs.isFinite = true)
    {objective : Objective} (hobjective : model.objective = some objective)
    {options : WriteOptions} (hnames : options.declaredNames = true)
    (hagain : (model.reread objective true).WellFormed) :
    (model.reread objective true).body options = model.body options := by
  have hterms := (h.issues_eq_nil_iff.mp hissues).2
  have htermsAgain := (hagain.issues_eq_nil_iff.mp (h.issues_reread hissues hagain)).2
  rw [h.body_eq hobjective hterms options none,
    hagain.body_eq objective_reread htermsAgain options none, hnames,
    h.documentWith_reread hobjective hfinite true none]

/-- A model with the same body is written as the same text. -/
theorem FitsStorage.write_congr {other : Model} {options : WriteOptions}
    (hfits : model.FitsStorage options) (hissues : model.issues = [])
    (hissues' : other.issues = []) {body : List Char} (hbody : model.body options = .ok body)
    (hbody' : other.body options = .ok body) :
    other.write options = .ok (String.ofList (header options body ++ body)) := by
  refine write_eq hissues' ⟨hfits.indent, fun text hrender => ?_⟩ hbody'
  exact hfits.text text ((render_eq hissues hbody).trans
    ((render_eq hissues' hbody').symm.trans hrender))

/--
Writing is undone by reading, and reading by writing: with declared names, what is read
back from the text of a valid model is written as this text, if the text can be held.
-/
theorem Reachable.write_read_write
    (h : model.Reachable) (hissues : model.issues = [])
    (hfinite : ∀ entry ∈ model.constraints, entry.effectiveRhs.isFinite = true)
    {options : WriteOptions} (hnames : options.declaredNames = true)
    (hfits : model.FitsStorage options) :
    ∃ text again, model.write options = .ok text ∧ read text = .ok again ∧
      again.write options = .ok text := by
  have hwellFormed := h.wellFormed
  obtain ⟨objective, hobjective⟩ := hwellFormed.exists_objective hissues
  obtain ⟨body, -, hbody, hwrite, -, -⟩ :=
    hwellFormed.exists_parse_write hissues hfits hobjective
  have hread := hwellFormed.read_eq_reread hfinite hwrite hobjective
  have hagain := (reachable_read hread).wellFormed
  rw [hnames] at hread hagain
  have hbodyAgain := hwellFormed.body_reread hissues hfinite hobjective hnames hagain
  refine ⟨_, _, hwrite, hread, ?_⟩
  exact hfits.write_congr hissues (hwellFormed.issues_reread hissues hagain) hbody
    (hbodyAgain.trans hbody)

theorem diet_finite : ∀ entry ∈ diet.constraints, entry.effectiveRhs.isFinite = true := by
  decide +kernel

theorem write_read_write_diet :
    diet.Reachable ∧ diet.issues = [] ∧
      (∀ entry ∈ diet.constraints, entry.effectiveRhs.isFinite = true) ∧
      WriteOptions.default.declaredNames = true ∧ diet.FitsStorage .default ∧
      ∃ text again, diet.write .default = .ok text ∧ read text = .ok again ∧
        again.write .default = .ok text :=
  ⟨reachable_run _, diet_issues, diet_finite, rfl, diet_fitsStorage,
    Reachable.write_read_write (reachable_run _) diet_issues diet_finite rfl diet_fitsStorage⟩

/-- With an indentation that no text can hold there is nothing to read and write again. -/
theorem not_forall_write_read_write :
    ¬∀ (model : Model) (options : WriteOptions), model.Reachable → model.issues = [] →
      (∀ entry ∈ model.constraints, entry.effectiveRhs.isFinite = true) →
      options.declaredNames = true →
      ∃ text again, model.write options = .ok text ∧ read text = .ok again ∧
        again.write options = .ok text := by
  intro hall
  obtain ⟨text, again, hwrite, -⟩ :=
    hall diet tooWide (reachable_run _) diet_issues diet_finite rfl
  rw [write_eq_overflow diet_issues (by decide)] at hwrite
  cases hwrite

/-! ## The same linear program -/

/--
Reading back what is written for a valid model gives the same linear program, if the text
can be held.  Mentioned variables are matched one to one with those of the model that is
read; variables that are never used, continuous and without bounds of their own are left
out.
-/
theorem Reachable.read_write_corresponds
    (h : model.Reachable) (hissues : model.issues = [])
    (hfinite : ∀ entry ∈ model.constraints, entry.effectiveRhs.isFinite = true)
    {options : WriteOptions} (hfits : model.FitsStorage options) :
    ∃ text again place, model.write options = .ok text ∧ read text = .ok again ∧
      Corresponds model options.declaredNames again place := by
  have hwellFormed := h.wellFormed
  obtain ⟨objective, hobjective⟩ := hwellFormed.exists_objective hissues
  obtain ⟨_, -, -, hwrite, -, -⟩ := hwellFormed.exists_parse_write hissues hfits hobjective
  exact ⟨_, _, _, hwrite, hwellFormed.read_eq_reread hfinite hwrite hobjective,
    hwellFormed.corresponds_reread hobjective hfinite options.declaredNames⟩

/-- Options under which variables and constraints are numbered. -/
def numbered : WriteOptions :=
  { WriteOptions.default with declaredNames := false }

theorem diet_fitsStorage_numbered : diet.FitsStorage numbered :=
  fitsStorage_of_body (by decide) (by decide +kernel)

theorem read_write_corresponds_diet :
    diet.Reachable ∧ diet.issues = [] ∧
      (∀ entry ∈ diet.constraints, entry.effectiveRhs.isFinite = true) ∧
      diet.FitsStorage numbered ∧
      ∃ text again place, diet.write numbered = .ok text ∧ read text = .ok again ∧
        Corresponds diet false again place :=
  ⟨reachable_run _, diet_issues, diet_finite, diet_fitsStorage_numbered,
    Reachable.read_write_corresponds (reachable_run _) diet_issues diet_finite
      diet_fitsStorage_numbered⟩

/-- With an indentation that no text can hold, not even numbered names can be read back. -/
theorem not_forall_read_write_corresponds :
    ¬∀ (model : Model) (options : WriteOptions), model.Reachable → model.issues = [] →
      (∀ entry ∈ model.constraints, entry.effectiveRhs.isFinite = true) →
      ∃ text again place, model.write options = .ok text ∧ read text = .ok again ∧
        Corresponds model options.declaredNames again place := by
  intro hall
  obtain ⟨text, again, place, hwrite, -⟩ := hall diet { tooWide with declaredNames := false }
    (reachable_run _) diet_issues diet_finite
  rw [write_eq_overflow diet_issues (by decide)] at hwrite
  cases hwrite

/-! ## Texts that cannot be read -/

/--
What is written can be read exactly when the right-hand sides are finite after constants
have been taken across.  The writer checks the two numbers, but not their difference.
-/
theorem read_write_iff
    (h : model.Reachable ∨ ∃ source, read source = .ok model)
    {options : WriteOptions} {text : String} (hwrite : model.write options = .ok text) :
    (∃ again, read text = .ok again) ↔
      ∀ entry ∈ model.constraints, entry.effectiveRhs.isFinite = true := by
  have hwellFormed : model.WellFormed := by
    rcases h with hreachable | ⟨source, hread⟩
    · exact hreachable.wellFormed
    · exact (reachable_read hread).wellFormed
  obtain ⟨objective, hobjective⟩ :=
    hwellFormed.exists_objective (exists_body_of_write hwrite).1
  constructor
  · rintro ⟨again, hread⟩
    rw [hwellFormed.read_of_write hwrite hobjective] at hread
    exact finite_of_ofDocument_documentWith hread
  · intro hfinite
    exact ⟨_, hwellFormed.read_eq_reread hfinite hwrite hobjective⟩

/-- A large finite number, the double of which is not finite. -/
def huge : Binary64 :=
  .ofRatio false (Nat.pow 2 2097) 1

open LinearExpr in
/-- A valid model whose constraint has its constant taken across to an infinite number. -/
def overflowing : Model :=
  run [.declare (.flat "Rice") .nonNegative .continuous,
    .addConstraint (.flat "Iron") ((var ⟨0⟩).withConstant huge) ((Built.var _).withConstant _)
      .le (-huge),
    .setObjective .minimize (var ⟨0⟩) (.var _)]

/-- The writer takes a valid model to a text that the reader refuses. -/
theorem read_write_iff_overflowing :
    overflowing.Reachable ∧ ∃ text, overflowing.write .default = .ok text ∧
      ¬∃ again, read text = .ok again := by
  have hissues : overflowing.issues = [] := by decide +kernel
  have hfits : overflowing.FitsStorage .default :=
    fitsStorage_of_body (by decide) (by decide +kernel)
  have hinfinite :
      ¬∀ entry ∈ overflowing.constraints, entry.effectiveRhs.isFinite = true := by
    decide +kernel
  have hwellFormed := (reachable_run _ : overflowing.Reachable).wellFormed
  obtain ⟨text, hwrite⟩ := hwellFormed.exists_write hissues hfits
  refine ⟨reachable_run _, text, hwrite, fun hread => hinfinite ?_⟩
  exact (read_write_iff (.inl (reachable_run _)) hwrite).mp hread

end Model

end LinearProgram
