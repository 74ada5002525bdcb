import LinearProgram.Model.Validity
import LinearProgram.Proofs.Model.Reachable

/-!
# Validity of reachable models

The checks on calls leave two problems that a well-formed model can have: that it has no
objective, and that constraints have no terms.
-/

namespace LinearProgram

namespace Model

theorem repeatedVariables_eq_nil {seen : List String} {vars : List Variable}
    (hdistinct : (vars.map fun entry => entry.name.text).Nodup)
    (hseen : ∀ entry ∈ vars, entry.name.text ∉ seen) : repeatedVariables seen vars = [] := by
  induction vars generalizing seen with
  | nil => rfl
  | cons entry vars ih =>
      obtain ⟨hfresh, hlater⟩ := List.nodup_cons.mp hdistinct
      have hnot : seen.contains entry.name.text = false := by
        rw [List.contains_eq_mem]
        exact decide_eq_false (hseen entry List.mem_cons_self)
      rw [repeatedVariables, hnot, ih hlater]
      · rfl
      · intro other hother hmem
        rcases List.mem_cons.mp hmem with heq | hold
        · exact hfresh (List.mem_map.mpr ⟨other, hother, heq⟩)
        · exact hseen other (List.mem_cons_of_mem entry hother) hold

theorem Admits.exprIssues_eq_nil {model : Model} {expr : LinearExpr}
    (h : Admits model.vars expr) (owner : String) : model.exprIssues expr owner = [] := by
  have hdeclared : (expr.vars.filter fun id => !model.columns.contains id) = [] := by
    rw [List.filter_eq_nil_iff]
    intro id hid
    have hcontains : model.columns.contains id = true := decide_eq_true (h.declared id hid)
    simp [hcontains]
  have hfinite : expr.firstNonFinite? = none := by
    rw [LinearExpr.firstNonFinite?, List.find?_eq_none]
    intro value hvalue
    rcases List.mem_append.mp hvalue with hterm | hconstant
    · obtain ⟨term, hmem, rfl⟩ := List.mem_map.mp hterm
      simp [h.finite term hmem]
    · rw [List.mem_singleton.mp hconstant]
      simp [h.constant]
  rw [exprIssues, hdeclared, hfinite]
  rfl

/-- The problem of a constraint without terms. -/
def emptyConstraintIssues (entry : Constraint) : List ModelError :=
  if entry.expr.isEmpty then [.emptyConstraint entry.name] else []

theorem allConstraintIssues_eq {model : Model} {seen : List String} {rows : List Constraint}
    (hrows : ∀ entry ∈ rows, Admits model.vars entry.expr ∧ entry.rhs.isFinite = true)
    (hdistinct : (rows.map fun entry => entry.name.text).Nodup)
    (hseen : ∀ entry ∈ rows, entry.name.text ∉ seen) :
    model.allConstraintIssues seen rows = rows.flatMap emptyConstraintIssues := by
  induction rows generalizing seen with
  | nil => rfl
  | cons entry rows ih =>
      obtain ⟨hfresh, hlater⟩ := List.nodup_cons.mp hdistinct
      obtain ⟨hadmits, hrhs⟩ := hrows entry List.mem_cons_self
      have hnot : seen.contains entry.name.text = false := by
        rw [List.contains_eq_mem]
        exact decide_eq_false (hseen entry List.mem_cons_self)
      have hfirst : model.constraintIssues seen entry = emptyConstraintIssues entry := by
        rw [constraintIssues, hnot, hadmits.exprIssues_eq_nil, hrhs, if_pos rfl,
          List.append_nil, List.append_nil]
        rfl
      rw [allConstraintIssues, hfirst, List.flatMap_cons, ih]
      · exact fun other hother => hrows other (List.mem_cons_of_mem entry hother)
      · exact hlater
      · intro other hother hmem
        rcases List.mem_cons.mp hmem with heq | hold
        · exact hfresh (List.mem_map.mpr ⟨other, hother, heq⟩)
        · exact hseen other (List.mem_cons_of_mem entry hother) hold

/-- Valid names are told apart by their written forms. -/
theorem nodup_map_text {α : Type} {entries : List α} {name : α → Name}
    (hvalid : ∀ entry ∈ entries, (name entry).IsValid) (h : (entries.map name).Nodup) :
    (entries.map fun entry => (name entry).text).Nodup := by
  have htexts : (entries.map fun entry => (name entry).text) =
      (entries.map name).map Name.text := by rw [List.map_map]; rfl
  rw [htexts]
  apply h.map_on
  intro a ha b hb heq
  obtain ⟨entry, hentry, rfl⟩ := List.mem_map.mp ha
  obtain ⟨other, hother, rfl⟩ := List.mem_map.mp hb
  exact (hvalid entry hentry).chars_injective (hvalid other hother) (String.ofList_injective heq)

/-- The problems that a well-formed model can have. -/
theorem WellFormed.issues_eq {model : Model} (h : model.WellFormed) :
    model.issues = (if model.objective.isSome then [] else [.missingObjective]) ++
      model.constraints.flatMap emptyConstraintIssues := by
  have hvars : repeatedVariables [] model.vars = [] :=
    repeatedVariables_eq_nil (nodup_map_text h.names h.distinct) fun _ _ => List.not_mem_nil
  have hrows : model.allConstraintIssues [] model.constraints =
      model.constraints.flatMap emptyConstraintIssues :=
    allConstraintIssues_eq (fun entry hentry => ⟨h.rows entry hentry, h.rhs entry hentry⟩)
      (nodup_map_text h.rowNames h.rowDistinct) fun _ _ => List.not_mem_nil
  rw [issues, hvars, hrows, List.nil_append, objectiveIssues]
  congr 1
  cases hobjective : model.objective with
  | none => rfl
  | some objective => exact (h.objective objective hobjective).exprIssues_eq_nil _

/-- What it takes for a well-formed model to have no problem. -/
theorem WellFormed.issues_eq_nil_iff {model : Model} (h : model.WellFormed) :
    model.issues = [] ↔
      model.objective.isSome = true ∧ ∀ entry ∈ model.constraints, entry.expr.isEmpty = false := by
  have hempty (entry : Constraint) :
      emptyConstraintIssues entry = [] ↔ entry.expr.isEmpty = false := by
    rw [emptyConstraintIssues]
    cases entry.expr.isEmpty <;> simp
  rw [h.issues_eq, List.append_eq_nil_iff, List.flatMap_eq_nil_iff]
  simp only [hempty]
  cases model.objective <;> simp

end Model

end LinearProgram
