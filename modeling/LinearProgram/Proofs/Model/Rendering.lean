import LinearProgram.Proofs.Document.Text
import LinearProgram.Proofs.Model.Mentions

/-!
# Bodies as texts of documents

What is written for a model depends on the model only through the document that it
denotes.  The body of a model is the text of its document: expressions and constraints
refer to variables by their written names, bounds are written by the sides that their
statement mentions, and numbers are written without the signs of zeros.  The main
statement is `WellFormed.body_eq`, and models that denote the same document are therefore
written alike.

Written names are words, so the body of a model spells the tokens of its document.
-/

namespace LinearProgram

@[simp] theorem lpNumber_dropZeroSign (x : Binary64) : lpNumber x.dropZeroSign = lpNumber x := by
  cases x with
  | finite negative m =>
      rw [Binary64.dropZeroSign, lpNumber_finite (negative && m.quanta != 0),
        lpNumber_finite negative, Bool.and_assoc, Bool.and_self]
  | _ => rfl

namespace Model

variable {model : Model}

/-! ## Expressions -/

@[simp] theorem signedPiece_dropZeroSign (isFirst : Bool) (value : Binary64) (body : List Char) :
    signedPiece isFirst value.dropZeroSign body = signedPiece isFirst value body := by
  rw [signedPiece, Binary64.isBelowZero_dropZeroSign]
  rfl

theorem toList_text (name : Name) : name.text.toList = name.chars := by
  rw [Name.text, String.toList_ofList]

theorem termPieces_eq_ok
    (options : WriteOptions) (isFirst : Bool) {terms : List (VariableId × Binary64)}
    (hdeclared : ∀ term ∈ terms, ∃ entry, model.vars[term.1.index]? = some entry) :
    model.termPieces options isFirst terms = .ok (WrittenExpr.termTexts isFirst
      (terms.map fun term => ⟨⟨0, 0⟩, term.2, model.nameOf options.declaredNames term.1⟩)) := by
  induction terms generalizing isFirst with
  | nil => rfl
  | cons term terms ih =>
      obtain ⟨id, coefficient⟩ := term
      obtain ⟨entry, hentry⟩ := hdeclared _ List.mem_cons_self
      have hget : model.columns.get? id = some entry := hentry
      have hlater := ih false fun term hterm => hdeclared term (List.mem_cons_of_mem _ hterm)
      rw [termPieces, hget]
      dsimp only
      rw [hlater, variableLabel_eq, model.columns.placed _ entry hget, List.map_cons,
        WrittenExpr.termTexts, nameOf_eq hentry, toList_text]
      rfl

theorem isEmpty_termTexts
    (isFirst : Bool) (terms : List WrittenTerm) :
    (WrittenExpr.termTexts isFirst terms).isEmpty = terms.isEmpty := by
  cases terms <;> rfl

theorem objectivePieces_eq_ok
    (options : WriteOptions) {expr : LinearExpr} (hexpr : Admits model.vars expr) :
    model.objectivePieces options expr = .ok (WrittenExpr.texts
      ⟨model.writtenTerms options.declaredNames expr, expr.constant.dropZeroSign⟩) := by
  have hterms : model.termPieces options true expr.terms = .ok (WrittenExpr.termTexts true
      (model.writtenTerms options.declaredNames expr)) :=
    termPieces_eq_ok options true fun _ => hexpr.exists_entry_of_term
  rw [objectivePieces, hterms, Reader.ok_bind, WrittenExpr.texts, WrittenExpr.showsConstant]
  simp only [isEmpty_termTexts, Binary64.isZero_dropZeroSign, signedPiece_dropZeroSign,
    Binary64.abs_dropZeroSign]
  split
  · rfl
  · rw [List.append_nil]
    rfl

/-! ## Constraints -/

theorem constraintLines_eq_ok
    (options : WriteOptions) {entry : Constraint} (hexpr : Admits model.vars entry.expr)
    (hterms : entry.expr.isEmpty = false) :
    model.constraintLines options entry =
      .ok ((model.writtenRow options.declaredNames entry entry.id.index).text options) := by
  have hpieces : model.termPieces options true entry.expr.terms = .ok (WrittenExpr.termTexts true
      (model.writtenTerms options.declaredNames entry.expr)) :=
    termPieces_eq_ok options true fun _ => hexpr.exists_entry_of_term
  have hshows : WrittenExpr.showsConstant
      ⟨model.writtenTerms options.declaredNames entry.expr, .zero⟩ = false := by
    have hempty : (model.writtenTerms options.declaredNames entry.expr).isEmpty = false :=
      List.isEmpty_map.trans hterms
    rw [WrittenExpr.showsConstant, hempty]
    rfl
  rw [constraintLines, hterms, if_neg Bool.false_ne_true, hpieces, Reader.ok_bind, Row.text,
    writtenRow]
  dsimp only
  rw [WrittenExpr.texts, hshows, if_neg Bool.false_ne_true, List.append_nil,
    lpNumber_dropZeroSign, Option.getD_some, toList_text, ← constraintLabel_eq]
  rfl

/-! ## Bounds and names -/

theorem boundText?_eq_some
    {label : List Char} {name : String} (hlabel : label = name.toList) {bounds : Bounds}
    (hvalid : bounds.isValid = true) (hdefault : bounds.isDefault = false) :
    boundText? label bounds = some (BoundStatement.text
      ⟨⟨0, 0⟩, name, bounds.writtenSides.1, bounds.writtenSides.2⟩) := by
  subst hlabel
  obtain ⟨hlowerNaN, -⟩ := Bounds.isValid_iff.mp hvalid
  rw [boundText?, Bounds.writtenSides, hdefault, if_neg Bool.false_ne_true,
    if_neg Bool.false_ne_true]
  by_cases hfixed : bounds.isFixed = true
  · rw [if_pos hfixed, if_pos hfixed]
    simp only [BoundStatement.text, if_true, lpNumber_dropZeroSign]
  have hdiffer : bounds.lower.dropZeroSign ≠ bounds.upper.dropZeroSign :=
    fun heq => hfixed (Binary64.numEq_of_dropZeroSign_eq hlowerNaN heq)
  rw [if_neg hfixed, if_neg hfixed]
  by_cases hfree : bounds.isFree = true
  · rw [if_pos hfree, if_pos hfree]
    rw [Bounds.isFree, Bool.and_eq_true] at hfree
    have hlower := (Binary64.dropZeroSign_of_isNegativeInfinity hfree.1).2
    have hupper := (Binary64.dropZeroSign_of_isPositiveInfinity hfree.2).2
    simp only [BoundStatement.text]
    rw [if_neg hdiffer, if_pos ⟨hlower, hupper⟩]
  have hboth : BoundStatement.text ⟨⟨0, 0⟩, name, some bounds.lower.dropZeroSign,
      some bounds.upper.dropZeroSign⟩ = lpNumber bounds.lower ++ " <= ".toList ++ name.toList ++
        " <= ".toList ++ lpNumber bounds.upper := by
    have hnotFree : ¬(bounds.lower.dropZeroSign = .infinity true ∧
        bounds.upper.dropZeroSign = .infinity false) := by
      rintro ⟨hlower, hupper⟩
      apply hfree
      rw [Bounds.isFree, ← Binary64.isNegativeInfinity_dropZeroSign,
        ← Binary64.isPositiveInfinity_dropZeroSign, hlower, hupper]
      rfl
    simp only [BoundStatement.text]
    rw [if_neg hdiffer, if_neg hnotFree, lpNumber_dropZeroSign, lpNumber_dropZeroSign]
  rw [if_neg hfree, if_neg hfree]
  by_cases hzero : bounds.lower.isZero = true
  · rw [if_pos hzero, if_pos hzero]
    simp only [BoundStatement.text, lpNumber_dropZeroSign]
  rw [if_neg hzero, if_neg hzero]
  by_cases hbelow : bounds.lower.isNegativeInfinity = true
  · have hlower := (Binary64.dropZeroSign_of_isNegativeInfinity hbelow).1
    rw [if_pos hbelow, if_pos hbelow, hboth, hlower]
    rfl
  rw [if_neg hbelow, if_neg hbelow]
  by_cases habove : bounds.upper.isPositiveInfinity = true
  · rw [if_pos habove, if_pos habove]
    simp only [BoundStatement.text, lpNumber_dropZeroSign]
  · rw [if_neg habove, if_neg habove, hboth]

theorem WellFormed.boundTexts_eq
    (h : model.WellFormed) (options : WriteOptions) (objective : Objective)
    (signature : Option String) :
    model.boundTexts options =
      (model.documentWith objective options.declaredNames signature).bounds.map
        BoundStatement.text := by
  change _ = (model.columns.entries.zipIdx.filterMap _).map _
  rw [boundTexts, List.map_filterMap, model.columns.zipIdx_entries, List.filterMap_map]
  apply List.filterMap_congr
  intro entry hentry
  have hlabel : variableLabel options entry =
      (variableName options.declaredNames entry entry.id.index).text.toList := by
    rw [variableLabel_eq, toList_text]
  dsimp only [Function.comp_apply, writtenBound?]
  by_cases hbinary : entry.kind = .binary
  · simp [hbinary]
  · cases hdefault : entry.bounds.isDefault with
    | true => simp [hbinary, boundText?, hdefault]
    | false =>
        rw [if_neg hbinary, if_neg (by simp [hbinary]), Option.map_some]
        exact boundText?_eq_some hlabel (h.bounds entry hentry) hdefault

theorem labelsOfKind_eq
    (model : Model) (options : WriteOptions) (kind : VariableKind) :
    model.labelsOfKind options kind =
      (model.namesOfKind options.declaredNames kind).map String.toList := by
  change _ = (model.columns.entries.zipIdx.filterMap _).map _
  rw [labelsOfKind, List.map_filterMap, model.columns.zipIdx_entries, List.filterMap_map]
  apply List.filterMap_congr
  intro entry _
  dsimp only [Function.comp_apply]
  split
  · rw [Option.map_some, variableLabel_eq, toList_text]
  · rfl

/-! ## Bodies -/

/-- A valid model is written as the text of the document that it denotes. -/
theorem WellFormed.body_eq
    (h : model.WellFormed) {objective : Objective} (hobjective : model.objective = some objective)
    (hterms : ∀ entry ∈ model.constraints, entry.expr.isEmpty = false) (options : WriteOptions)
    (signature : Option String) :
    model.body options =
      .ok ((model.documentWith objective options.declaredNames signature).bodyText options) := by
  have hrows : model.constraints.mapM (constraintLines model options) =
      .ok ((model.documentWith objective options.declaredNames signature).rows.map
        (Row.text options)) := by
    change _ = Except.ok ((model.rows.entries.zipIdx.map _).map _)
    rw [model.rows.zipIdx_entries, List.map_map, List.map_map]
    apply mapM_eq_ok
    intro entry hentry
    exact constraintLines_eq_ok options (h.rows entry hentry) (hterms entry hentry)
  have hbounds : model.boundsSection options = Document.boundsText
      ((model.documentWith objective options.declaredNames signature).bounds.map
        BoundStatement.text) := by
    rw [boundsSection, h.boundTexts_eq options objective signature]
    rfl
  rw [body, hobjective]
  dsimp only
  rw [objectivePieces_eq_ok options (h.objective objective hobjective), Reader.ok_bind, hrows,
    Reader.ok_bind, hbounds, labelsOfKind_eq, labelsOfKind_eq]
  rfl

/-- A valid name is a word, whatever the name. -/
theorem isWord_text {name : Name} (h : name.IsValid) : IsWord name.text := by
  rw [IsWord, toList_text]
  exact h.spells

theorem WellFormed.worded_documentWith
    (h : model.WellFormed) {objective : Objective} (hobjective : model.objective = some objective)
    (declaredNames : Bool) (signature : Option String) :
    (model.documentWith objective declaredNames signature).Worded := by
  constructor
  case mentions =>
    intro name hname
    obtain ⟨index, entry, hentry, rfl⟩ := h.exists_of_mem_mentions hobjective hname
    exact isWord_text (h.isValid_variableName declaredNames hentry)
  case labels =>
    intro row hrow
    obtain ⟨index, entry, hentry, rfl⟩ := mem_rows_documentWith_iff.mp hrow
    exact ⟨_, rfl, isWord_text (h.isValid_constraintName declaredNames hentry)⟩

/-- A valid model has a body, which spells the document that the model denotes. -/
theorem WellFormed.exists_body
    (h : model.WellFormed) {objective : Objective} (hobjective : model.objective = some objective)
    (hterms : ∀ entry ∈ model.constraints, entry.expr.isEmpty = false) (options : WriteOptions)
    (signature : Option String) :
    ∃ body tokens, model.body options = .ok body ∧
      (model.documentWith objective options.declaredNames signature).Laid tokens ∧
      SpellsLines body tokens := by
  have hworded := h.worded_documentWith hobjective options.declaredNames signature
  obtain ⟨tokens, hlaid, hspells⟩ := hworded.exists_laid options
  exact ⟨_, tokens, h.body_eq hobjective hterms options signature, hlaid, hspells⟩

end Model

end LinearProgram
