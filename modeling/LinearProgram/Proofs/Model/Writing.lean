import LinearProgram.Proofs.Model.Parsing

/-!
# What keeps a model from being written

A model that calls or a document have led to lacks an objective or has constraints
without terms, and has no other problem.  Writing reports exactly these problems, and it
succeeds when there are none and the text can be held.  The inconsistencies that the
printer guards against never arise.
-/

namespace LinearProgram

namespace Model

variable {model : Model}

theorem flatMap_emptyConstraintIssues (rows : List Constraint) :
    rows.flatMap emptyConstraintIssues =
      (rows.filter fun entry => entry.expr.terms = []).map fun entry =>
        .emptyConstraint entry.name := by
  induction rows with
  | nil => rfl
  | cons entry rows ih =>
      rw [List.flatMap_cons, ih, emptyConstraintIssues, LinearExpr.isEmpty, List.filter_cons]
      cases entry.expr.terms <;> rfl

/-- The problems of a well-formed model, read off the objective and the constraints. -/
theorem WellFormed.issues_eq_filter (h : model.WellFormed) :
    model.issues = (if model.objective = none then [.missingObjective] else []) ++
      (model.constraints.filter fun entry => entry.expr.terms = []).map fun entry =>
        .emptyConstraint entry.name := by
  rw [h.issues_eq, flatMap_emptyConstraintIssues]
  cases model.objective <;> rfl

theorem WellFormed.exists_objective (h : model.WellFormed) (hissues : model.issues = []) :
    ∃ objective, model.objective = some objective :=
  Option.isSome_iff_exists.mp (h.issues_eq_nil_iff.mp hissues).1

/-- A well-formed model without problems has a text. -/
theorem WellFormed.exists_render (h : model.WellFormed) (hissues : model.issues = [])
    (options : WriteOptions) : ∃ text, model.render options = .ok text := by
  obtain ⟨objective, hobjective⟩ := h.exists_objective hissues
  obtain ⟨body, -, hbody, -⟩ := h.exists_parse_body hissues options hobjective
  exact ⟨_, render_eq hissues hbody⟩

/-- A well-formed model without problems is written whenever its text can be held. -/
theorem WellFormed.exists_write (h : model.WellFormed) (hissues : model.issues = [])
    {options : WriteOptions} (hfits : model.FitsStorage options) :
    ∃ text, model.write options = .ok text := by
  obtain ⟨objective, hobjective⟩ := h.exists_objective hissues
  obtain ⟨_, -, -, hwrite, -⟩ := h.exists_parse_write hissues hfits hobjective
  exact ⟨_, hwrite⟩

/-- A well-formed model without problems is written, or its text outgrows what is held. -/
theorem WellFormed.exists_write_or_overflow (h : model.WellFormed) (hissues : model.issues = [])
    (options : WriteOptions) :
    (∃ text, model.write options = .ok text) ∨ model.write options = .overflow := by
  by_cases hindent : options.continuationIndent < WriteOutcome.textLimit
  · obtain ⟨text, hrender⟩ := h.exists_render hissues options
    rw [write_eq_hold hindent, hrender, WriteOutcome.hold]
    split
    · exact .inl ⟨_, rfl⟩
    · exact .inr rfl
  · exact .inr (write_eq_overflow hissues (Nat.not_lt.mp hindent))

theorem WellFormed.write_ne_inconsistent (h : model.WellFormed) (options : WriteOptions)
    (cause : Inconsistency) : model.write options ≠ .error (.inconsistent cause) := by
  intro hwrite
  by_cases hissues : model.issues = []
  · rcases h.exists_write_or_overflow hissues options with ⟨text, htext⟩ | hoverflow
    · exact nomatch hwrite.symm.trans htext
    · exact nomatch hwrite.symm.trans hoverflow
  · exact nomatch hwrite.symm.trans (write_eq_invalid hissues options)

/--
What can go wrong when a model is written.  Its problems are a missing objective and the
constraints without terms, in order.  With a problem the error lists all of them, whatever
the options.  Without one the model is written if its text can be held; otherwise the text
may outgrow what is held, as it does when the indentation alone is too long.
-/
theorem write_outcome
    (h : model.Reachable ∨ ∃ document beginning, ofDocument document beginning = .ok model)
    (options : WriteOptions) :
    model.issues = (if model.objective = none then [.missingObjective] else []) ++
        ((model.constraints.filter fun entry => entry.expr.terms = []).map fun entry =>
          .emptyConstraint entry.name) ∧
      (model.FitsStorage options →
        ((∃ text, model.write options = .ok text) ↔ model.issues = [])) ∧
      (model.issues ≠ [] →
        model.write options = .error (.invalid (.modelInvalid model.issues))) ∧
      (model.issues = [] →
        (∃ text, model.write options = .ok text) ∨ model.write options = .overflow) ∧
      (model.issues = [] → WriteOutcome.textLimit ≤ options.continuationIndent →
        model.write options = .overflow) ∧
      ∀ cause, model.write options ≠ .error (.inconsistent cause) := by
  have hwellFormed : model.WellFormed := by
    rcases h with hreachable | ⟨document, beginning, hread⟩
    · exact hreachable.wellFormed
    · exact (reachable_ofDocument hread).1.wellFormed
  refine ⟨hwellFormed.issues_eq_filter, fun hfits => ⟨?_, ?_⟩,
    fun hissues => write_eq_invalid hissues _,
    fun hissues => hwellFormed.exists_write_or_overflow hissues options, write_eq_overflow,
    hwellFormed.write_ne_inconsistent options⟩
  · rintro ⟨text, hwrite⟩
    exact (exists_body_of_write hwrite).1
  · exact fun hissues => hwellFormed.exists_write hissues hfits

open LinearExpr in
/-- A model without an objective, with a constraint without terms that is added only once. -/
def unfinished : Model :=
  run [.declare (.flat "Rice") .nonNegative .continuous,
    .addConstraint (.flat "Salt") (ofConstant two) (.ofConstant two) .le .one,
    .addConstraint (.flat "Salt") (ofConstant two) (.ofConstant two) .ge two]

theorem write_outcome_unfinished :
    unfinished.Reachable ∧
      unfinished.issues = [.missingObjective, .emptyConstraint (.flat "Salt")] ∧
      unfinished.write .default = .error (.invalid (.modelInvalid unfinished.issues)) ∧
      diet.Reachable ∧ diet.FitsStorage .default ∧ diet.issues = [] ∧
      ∃ text, diet.write .default = .ok text := by
  have hreachable : unfinished.Reachable := reachable_run _
  have hdiet : diet.Reachable := reachable_run _
  obtain ⟨hlist, -, hinvalid, -⟩ := write_outcome (.inl hreachable) .default
  obtain ⟨-, hwritten, -⟩ := write_outcome (.inl hdiet) .default
  have hissues : unfinished.issues = [.missingObjective, .emptyConstraint (.flat "Salt")] := by
    rw [hlist]
    rfl
  have hne : unfinished.issues ≠ [] := by
    rw [hissues]
    exact List.cons_ne_nil _ _
  exact ⟨hreachable, hissues, hinvalid hne, hdiet, diet_fitsStorage, diet_issues,
    (hwritten diet_fitsStorage).mpr diet_issues⟩

/-- With an indentation that no text can hold, not even a model without problems is written. -/
theorem not_forall_write_outcome :
    ¬∀ (model : Model) (options : WriteOptions), model.Reachable →
      ((∃ text, model.write options = .ok text) ↔ model.issues = []) := by
  intro hall
  obtain ⟨text, hwrite⟩ := (hall diet tooWide (reachable_run _)).mpr diet_issues
  rw [write_eq_overflow diet_issues (by decide)] at hwrite
  cases hwrite

end Model

end LinearProgram
