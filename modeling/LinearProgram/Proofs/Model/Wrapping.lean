import LinearProgram.Header
import LinearProgram.Proofs.Layout.FirstFit
import LinearProgram.Proofs.Layout.Words
import LinearProgram.Proofs.Model.Writing

/-!
# Written lines

What is written for a model goes into lines piece by piece.  The widths and indentations
decide where the lines break, the choice of names decides what the pieces are, and nothing
else in the options reaches a body.  Bodies that show the same names therefore have the
same words, however they are laid out.
-/

namespace LinearProgram

namespace Model

open Text

variable {model : Model} {options options' : WriteOptions}

/-! ## Pieces -/

theorem variableLabel_congr (h : options'.declaredNames = options.declaredNames) :
    variableLabel options' = variableLabel options := by
  funext entry
  rw [variableLabel, variableLabel, h]

theorem constraintLabel_congr (h : options'.declaredNames = options.declaredNames) :
    constraintLabel options' = constraintLabel options := by
  funext entry
  rw [constraintLabel, constraintLabel, h]

theorem termPieces_congr (h : options'.declaredNames = options.declaredNames) (isFirst : Bool)
    (terms : List (VariableId × Binary64)) :
    model.termPieces options' isFirst terms = model.termPieces options isFirst terms := by
  induction terms generalizing isFirst with
  | nil => rfl
  | cons term terms ih =>
      rw [termPieces, termPieces, ih, variableLabel_congr h]

theorem objectivePieces_congr (h : options'.declaredNames = options.declaredNames)
    (expr : LinearExpr) :
    model.objectivePieces options' expr = model.objectivePieces options expr := by
  rw [objectivePieces, objectivePieces, termPieces_congr h]

theorem boundsSection_congr (h : options'.declaredNames = options.declaredNames) :
    model.boundsSection options' = model.boundsSection options := by
  rw [boundsSection, boundsSection, boundTexts, boundTexts, variableLabel_congr h]

theorem labelsOfKind_congr (h : options'.declaredNames = options.declaredNames)
    (kind : VariableKind) :
    model.labelsOfKind options' kind = model.labelsOfKind options kind := by
  rw [labelsOfKind, labelsOfKind, variableLabel_congr h]

/-! ## Bodies -/

/-- If every step succeeds again, with a result like the first one, so do all steps. -/
theorem exists_mapM_forall₂
    {α β ε : Type} {f g : α → Except ε β} {R : β → β → Prop}
    (h : ∀ a b, f a = .ok b → ∃ b', g a = .ok b' ∧ R b b') {xs : List α} {ys : List β}
    (hmap : xs.mapM f = .ok ys) :
    ∃ ys', xs.mapM g = .ok ys' ∧ List.Forall₂ R ys ys' := by
  induction xs generalizing ys with
  | nil =>
      obtain rfl := Except.ok.inj hmap
      exact ⟨[], rfl, .nil⟩
  | cons x xs ih =>
      rw [List.mapM_cons, Reader.bind_eq_ok_iff] at hmap
      obtain ⟨y, hy, hlater⟩ := hmap
      obtain ⟨ys, hys, hcons⟩ := Reader.bind_eq_ok_iff.mp hlater
      obtain rfl := Except.ok.inj hcons
      obtain ⟨y', hy', hfirst⟩ := h x y hy
      obtain ⟨ys', hys', hrest⟩ := ih hys
      refine ⟨y' :: ys', ?_, .cons hfirst hrest⟩
      rw [List.mapM_cons, hy', hys']
      rfl

theorem exists_constraintLines_sameWords (hnames : options'.declaredNames = options.declaredNames)
    {entry : Constraint} {lines : List Char}
    (h : model.constraintLines options entry = .ok lines) :
    ∃ lines', model.constraintLines options' entry = .ok lines' ∧
      SameWords lines lines' := by
  rw [constraintLines] at h ⊢
  by_cases hempty : entry.expr.isEmpty = true
  · rw [if_pos hempty] at h
    cases h
  · rw [if_neg hempty] at h ⊢
    obtain ⟨pieces, hpieces, hlines⟩ := Reader.bind_eq_ok_iff.mp h
    obtain rfl := Except.ok.inj hlines
    rw [termPieces_congr hnames, hpieces, constraintLabel_congr hnames]
    exact ⟨_, rfl, WriteOptions.sameWords_linesAfter options options' _ _⟩

theorem sameWords_namesSection (options options' : WriteOptions) (title : String)
    (names : List (List Char)) :
    SameWords (namesSection options title names) (namesSection options' title names) := by
  cases names with
  | nil => exact .refl []
  | cons name names =>
      have hlines := WriteOptions.sameWords_linesFrom options options' [' '] (name :: names)
      exact (SameWords.refl title.toList).append (hlines.cons '\n')

/-- A body can be laid out with any widths and indentations, and keeps its words. -/
theorem exists_body_sameWords (hnames : options'.declaredNames = options.declaredNames)
    {body : List Char} (hbody : model.body options = .ok body) :
    ∃ body', model.body options' = .ok body' ∧ SameWords body body' := by
  rw [Model.body] at hbody ⊢
  cases hobjective : model.objective with
  | none =>
      rw [hobjective] at hbody
      cases hbody
  | some objective =>
      rw [hobjective] at hbody
      dsimp only at hbody ⊢
      obtain ⟨pieces, hpieces, hrest⟩ := Reader.bind_eq_ok_iff.mp hbody
      obtain ⟨rows, hrows, hresult⟩ := Reader.bind_eq_ok_iff.mp hrest
      obtain rfl := Except.ok.inj hresult
      obtain ⟨rows', hrows', hsame⟩ := exists_mapM_forall₂
        (fun row lines => exists_constraintLines_sameWords hnames) hrows
      rw [objectivePieces_congr hnames, hpieces, Reader.ok_bind, hrows', Reader.ok_bind,
        boundsSection_congr hnames, labelsOfKind_congr hnames, labelsOfKind_congr hnames]
      refine ⟨_, rfl, ?_⟩
      -- Pieces and bounds are the same; what is left are the lines that hold them.
      have hopening := (SameWords.refl (senseKeyword objective.sense).toList).append
        ((WriteOptions.sameWords_linesFrom options options' [' ', ' '] pieces).cons '\n')
      have hconstraints := (hopening.append (.refl "Subject To\n".toList)).append
        (SameWords.flatten hsame)
      have hnamed := ((hconstraints.append (.refl (model.boundsSection options))).append
        (sameWords_namesSection options options' "Generals"
          (model.labelsOfKind options .integer))).append
        (sameWords_namesSection options options' "Binaries" (model.labelsOfKind options .binary))
      exact hnamed.append (.refl "End\n".toList)

/-! ## Texts -/

/--
Lines are filled by first fit, and by nothing else: behind the label of a row no piece is
forced onto the line, and a fresh line takes its first piece in any case.  A model that
has been written can be written with any other widths and indentations if the text can be
held, with the same words behind the header, and with no indentation that is too long.
-/
theorem write_firstFit (options : WriteOptions) :
    (∀ start pieces text, text = options.linesAfter start pieces ↔
      ∃ here later,
        options.FirstFit (WriteOptions.labelledLine start) 0 pieces text here later) ∧
    (∀ start pieces text, text = options.linesFrom start pieces ↔
      ∃ here later,
        options.FirstFit (WriteOptions.freshLine start) 1 pieces text here later) ∧
    ∀ (model : Model) (options' : WriteOptions) (text : String),
      options'.declaredNames = options.declaredNames → model.write options = .ok text →
        (model.FitsStorage options' → ∃ body body',
          model.body options = .ok body ∧
          text = String.ofList (header options body ++ body) ∧
          model.body options' = .ok body' ∧
          model.write options' = .ok (String.ofList (header options' body' ++ body')) ∧
          words body' = words body) ∧
        (WriteOutcome.textLimit ≤ options'.continuationIndent →
          model.write options' = .overflow) := by
  refine ⟨fun _ _ _ => WriteOptions.eq_linesAfter_iff,
    fun _ _ _ => WriteOptions.eq_linesFrom_iff, ?_⟩
  intro model options' text hnames hwrite
  obtain ⟨hissues, body, hbody, htext⟩ := exists_body_of_write hwrite
  refine ⟨fun hfits => ?_, write_eq_overflow hissues⟩
  obtain ⟨body', hbody', hsame⟩ := exists_body_sameWords hnames hbody
  exact ⟨body, body', hbody, htext, hbody', write_eq hissues hfits hbody', hsame.words_eq.symm⟩

theorem exists_write_diet : ∃ text, diet.write .default = .ok text := by
  have hwellFormed : diet.WellFormed := (reachable_run _).wellFormed
  exact hwellFormed.exists_write diet_issues diet_fitsStorage

theorem write_firstFit_cramped :
    cramped.declaredNames = WriteOptions.default.declaredNames ∧ diet.FitsStorage cramped ∧
      ∃ text body body', diet.write .default = .ok text ∧
        text = String.ofList (header .default body ++ body) ∧
        diet.write cramped = .ok (String.ofList (header cramped body' ++ body')) ∧
        words body' = words body := by
  obtain ⟨text, hwrite⟩ := exists_write_diet
  obtain ⟨-, -, hwords⟩ := write_firstFit .default
  obtain ⟨body, body', -, htext, -, hwrite', hsame⟩ :=
    (hwords diet cramped text rfl hwrite).1 diet_fitsStorage_cramped
  exact ⟨rfl, diet_fitsStorage_cramped, text, body, body', hwrite, htext, hwrite', hsame⟩

/-- With an indentation that no text can hold there is no other layout of what is written. -/
theorem not_forall_write_words :
    ¬∀ (model : Model) (options options' : WriteOptions) (text : String),
      options'.declaredNames = options.declaredNames → model.write options = .ok text →
        ∃ text', model.write options' = .ok text' ∧
          words (Header.split text').2.toList = words (Header.split text).2.toList := by
  intro hall
  obtain ⟨text, hwrite⟩ := exists_write_diet
  obtain ⟨text', hwrite', -⟩ := hall diet .default tooWide text rfl hwrite
  rw [write_eq_overflow diet_issues (by decide)] at hwrite'
  cases hwrite'

end Model

end LinearProgram
