import LinearProgram.Proofs.Document.Compilation

/-!
# Models of documents

When the expressions of a document are canonical, nothing is summed up: the model has a
variable for every name that is mentioned, in order of declaration, and an objective and
constraints with the terms as they are written.  The main statement is
`Document.Plain.ofDocument_eq`.  Whatever a document is, the model that is read from it is
reached by calls.
-/

namespace LinearProgram

namespace WrittenExpr

/-- Expressions that are resolved term by term. -/
structure Plain (expr : WrittenExpr) : Prop where
  distinct : (expr.terms.map WrittenTerm.name).Nodup
  finite : ∀ term ∈ expr.terms, term.coefficient.isFinite = true
  nonzero : ∀ term ∈ expr.terms, term.coefficient.isZero = false
  constant : expr.constant.isFinite = true

end WrittenExpr

/-- The constraint that a numbered row denotes, its names referring to places in an order. -/
def Row.constraint (beginning : String) (order : List String) (row : Row × Nat) : Constraint :=
  Row.constraintAt beginning (fun expr => expr.resolved order) row.2 row

namespace Document

/-- The constraints that the rows denote. -/
def constraints (document : Document) (beginning : String) : List Constraint :=
  document.rows.zipIdx.map (Row.constraint beginning document.declarationOrder)

/-- The model that a document denotes. -/
def model (document : Document) (beginning : String) : Model :=
  document.modelWith beginning fun expr => expr.resolved document.declarationOrder

/-- Documents that a model takes part by part. -/
structure Plain (document : Document) (beginning : String) : Prop where
  kinds : ∀ name ∈ document.binaries, name ∉ document.generals
  names : ∀ name ∈ document.mentions, (Name.ofText name).IsValid
  bounds : ∀ name ∈ document.mentions, (document.variableOf name).bounds.isValid = true
  fits : document.declarationOrder.length ≤ idCapacity
  objective : document.objective.expr.Plain
  rows : ∀ row ∈ document.rows, row.expr.Plain
  rhs : ∀ row ∈ document.rows, row.rhs.isFinite = true
  rowNames : ∀ entry ∈ document.constraints beginning, entry.name.IsValid
  rowDistinct : ((document.constraints beginning).map Constraint.name).Nodup
  rowFits : document.rows.length ≤ idCapacity

end Document

/-! ## Expressions -/

namespace LinearExpr

theorem foldl_addTerm_of_nodup
    {terms later : List (VariableId × Binary64)}
    (h : ((terms ++ later).map Prod.fst).Nodup) :
    later.foldl addTerm terms = terms ++ later := by
  induction later generalizing terms with
  | nil => rw [List.foldl_nil, List.append_nil]
  | cons term later ih =>
      have hfresh : term.1 ∉ terms.map Prod.fst := not_mem_of_nodup_map_append h
      have hassoc : terms ++ [term] ++ later = terms ++ term :: later := by
        rw [List.append_assoc, List.singleton_append]
      rw [List.foldl_cons, addTerm_of_not_mem hfresh, ih (hassoc.symm ▸ h), hassoc]

end LinearExpr

namespace WrittenExpr

variable {expr : WrittenExpr} {order : List String}

theorem Plain.nodup_resolved
    (h : expr.Plain) (hnames : ∀ term ∈ expr.terms, term.name ∈ order) :
    (expr.resolved order).vars.Nodup := by
  have hvars : (expr.resolved order).vars =
      (expr.terms.map WrittenTerm.name).map fun name => VariableId.mk (order.idxOf name) := by
    simp [resolved, LinearExpr.vars, Function.comp_def]
  rw [hvars]
  apply h.distinct.map_on
  intro x hx y _ heq
  obtain ⟨term, hterm, rfl⟩ := List.mem_map.mp hx
  exact (List.idxOf_inj (hnames term hterm)).mp (VariableId.mk.inj heq)

theorem Plain.finite_resolved
    (h : expr.Plain) (order : List String) :
    ∀ term ∈ (expr.resolved order).terms, term.2.isFinite = true := by
  intro term hterm
  obtain ⟨written, hwritten, rfl⟩ := List.mem_map.mp hterm
  exact h.finite written hwritten

theorem Plain.nonzero_resolved
    (h : expr.Plain) (order : List String) :
    ∀ term ∈ (expr.resolved order).terms, term.2.isZero = false := by
  intro term hterm
  obtain ⟨written, hwritten, rfl⟩ := List.mem_map.mp hterm
  exact h.nonzero written hwritten

/-- Terms of distinct variables are resolved as they are, as adding them up changes nothing. -/
theorem Plain.terms_resolved
    (h : expr.Plain) (hnames : ∀ term ∈ expr.terms, term.name ∈ order) :
    expr.names.map (fun name => (⟨order.idxOf name⟩, expr.sumOf name)) =
      (expr.resolved order).terms := by
  rw [← foldl_addTerm_resolved hnames]
  exact LinearExpr.foldl_addTerm_of_nodup (h.nodup_resolved hnames)

theorem Plain.summed_eq
    (h : expr.Plain) (hnames : ∀ term ∈ expr.terms, term.name ∈ order) :
    expr.summed order = expr.resolved order := by
  have hkeep : LinearExpr.dropZeros (expr.resolved order).terms = (expr.resolved order).terms := by
    apply List.filter_eq_self.mpr
    intro term hterm
    simp [h.nonzero_resolved order term hterm]
  rw [summed, h.terms_resolved hnames, hkeep]
  rfl

theorem Plain.isFinite (h : expr.Plain) : expr.IsFinite := by
  refine ⟨h.finite, fun name hname => ?_, h.constant⟩
  let order := expr.terms.map WrittenTerm.name
  have hterms := h.terms_resolved fun term hterm => List.mem_map.mpr ⟨term, hterm, rfl⟩
  have hmem : (⟨order.idxOf name⟩, expr.sumOf name) ∈ (expr.resolved order).terms := by
    rw [← hterms]
    exact List.mem_map.mpr ⟨name, hname, rfl⟩
  exact h.finite_resolved order _ hmem

end WrittenExpr

namespace Document

variable {document : Document} {beginning : String}

theorem map_name_constraints (document : Document) (beginning : String) :
    (document.constraints beginning).map Constraint.name = document.rowNames beginning := by
  rw [constraints, List.map_map]
  rfl

theorem vars_model (document : Document) (beginning : String) :
    (document.model beginning).vars = document.declarationOrder.map document.variableOf :=
  document.vars_modelWith beginning _

theorem constraints_model
    (hdistinct : ((document.constraints beginning).map Constraint.name).Nodup) :
    (document.model beginning).constraints = document.constraints beginning :=
  constraints_modelWith (document.map_name_constraints beginning ▸ hdistinct) _

theorem Plain.compiles (h : document.Plain beginning) : document.Compiles beginning := by
  have hmentioned : ∀ name ∈ document.variableNames, name ∈ document.mentions :=
    fun name hname => List.mem_eraseDups.mp hname
  have hrowNames := document.map_name_constraints beginning
  constructor
  case kinds => exact h.kinds
  case names => exact fun name hname => h.names name (hmentioned name hname)
  case bounds =>
    exact fun name hname => (isValid_bounds_variableOf_iff name).mp
      (h.bounds name (hmentioned name hname))
  case objective => exact h.objective.isFinite
  case rows => exact fun row hrow => (h.rows row hrow).isFinite
  case rhs => exact h.rhs
  case rowNames =>
    rw [← hrowNames]
    exact List.forall_mem_map.mpr h.rowNames
  case rowDistinct => exact hrowNames ▸ h.rowDistinct
  case fits => exact document.declarationOrder_perm.length_eq ▸ h.fits
  case rowFits => exact h.rowFits

/-- A document whose parts a model takes is read as the model that it denotes. -/
theorem Plain.ofDocument_eq
    (h : document.Plain beginning) :
    Model.ofDocument document beginning = .ok (document.model beginning) := by
  have hobjective := h.objective.summed_eq fun term hterm =>
    document.mem_declarationOrder_of_objective hterm
  have hrows (row : Row × Nat) (hrow : row ∈ document.rows.zipIdx) :
      row.1.expr.summed document.declarationOrder =
        row.1.expr.resolved document.declarationOrder := by
    have hmem := List.fst_mem_of_mem_zipIdx hrow
    exact (h.rows _ hmem).summed_eq fun term hterm => mem_declarationOrder_of_row hmem hterm
  have hadded : addIn beginning (fun expr => expr.summed document.declarationOrder) .empty
        document.rows.zipIdx =
      addIn beginning (fun expr => expr.resolved document.declarationOrder) .empty
        document.rows.zipIdx := by
    refine Table.insertAll_congr _ _ fun row hrow place => ?_
    rw [Row.constraintAt, hrows row hrow]
    rfl
  refine ofDocument_eq_ok_iff.mpr ⟨h.compiles, ?_⟩
  rw [summedModel, modelWith, hobjective, hadded]
  rfl

end Document

/-! ## Places do not matter -/

namespace Document

variable (document : Document)

theorem mentions_bare : document.bare.mentions = document.mentions := by
  simp [mentions, bare, ObjectiveSection.bare, WrittenExpr.bare, List.flatMap_map, Row.bare,
    Function.comp_def, WrittenTerm.bare, BoundStatement.bare]

theorem declarationOrder_bare : document.bare.declarationOrder = document.declarationOrder := by
  have hlistings : document.bare.listings = document.listings := by
    simp [listings, bare, Function.comp_def, BoundStatement.bare]
  rw [declarationOrder, hlistings, variableNames, mentions_bare]
  rfl

theorem boundsOf_bare (name : String) : document.bare.boundsOf name = document.boundsOf name := by
  change ((document.bounds.map BoundStatement.bare).filter _).foldl _ _ = _
  rw [List.filter_map, List.foldl_map]
  rfl

theorem ofDocument_bare
    (beginning : String) :
    Model.ofDocument document.bare beginning = Model.ofDocument document beginning := by
  have hresolve (expr : WrittenExpr) (order : List String) :
      expr.bare.resolve order = expr.resolve order := by
    rw [WrittenExpr.resolve, WrittenExpr.bare, List.mapM_map]
    rfl
  have hdeclare (model : Model) (order : List String) :
      Model.declareAll document.bare model order = Model.declareAll document model order := by
    induction order generalizing model with
    | nil => rfl
    | cons name order ih =>
        simp only [Model.declareAll_cons, boundsOf_bare, ih]
        rfl
  have hrows (order : List String) (model : Model) :
      Model.addRows beginning order model document.bare.rows.zipIdx =
        Model.addRows beginning order model document.rows.zipIdx := by
    rw [bare, List.zipIdx_map, Model.addRows, List.foldlM_map, Model.addRows]
    simp only [Prod.map, Row.bare, hresolve]
    rfl
  rw [Model.ofDocument, Model.ofDocument, Model.assemble, Model.assemble]
  simp only [declarationOrder_bare, hdeclare, hrows]
  simp only [bare, ObjectiveSection.bare, hresolve]

end Document

/-! ## Models that are read -/

theorem WrittenExpr.built_of_resolve_eq_ok
    {expr : WrittenExpr} {order : List String} {resolved : LinearExpr}
    (hok : expr.resolve order = .ok resolved) : resolved.Built := by
  rw [resolve] at hok
  obtain ⟨terms, -, hok⟩ := Reader.bind_eq_ok_iff.mp hok
  obtain ⟨sum, hsum, hok⟩ := Reader.bind_eq_ok_iff.mp hok
  rw [← Except.ok.inj hok]
  exact (LinearExpr.Built.ofTerms hsum).withConstant expr.constant

namespace Model

variable {document : Document} {beginning : String} {order : List String} {model next : Model}

theorem Reachable.declareAll
    (h : model.Reachable) (hok : declareAll document model order = .ok next) :
    next.Reachable := by
  induction order generalizing model with
  | nil =>
      rw [← Except.ok.inj hok]
      exact h
  | cons name order ih =>
      rw [declareAll_cons] at hok
      obtain ⟨⟨declared, id⟩, hdeclare, hlater⟩ := Reader.bind_eq_ok_iff.mp hok
      have hstep := h.after (.declare (.ofText name) (document.boundsOf name)
        (document.kindOf name))
      rw [Model.after, perform, completed_eq_ok_iff.mp hdeclare] at hstep
      exact ih hstep hlater

/-- Rows are added by calls, which refuse right-hand sides that are not finite. -/
theorem Reachable.addRows
    {rows : List (Row × Nat)} (h : model.Reachable)
    (hok : addRows beginning order model rows = .ok next) :
    next.Reachable ∧ ∀ row ∈ rows, row.1.rhs.isFinite = true := by
  induction rows generalizing model with
  | nil =>
      rw [← Except.ok.inj hok]
      exact ⟨h, fun row hrow => absurd hrow List.not_mem_nil⟩
  | cons row rows ih =>
      obtain ⟨row, index⟩ := row
      rw [addRows_cons] at hok
      obtain ⟨expr, hexpr, hok⟩ := Reader.bind_eq_ok_iff.mp hok
      obtain ⟨⟨added, id⟩, hadd, hlater⟩ := Reader.bind_eq_ok_iff.mp hok
      have hstep := h.after (.addConstraint (row.nameAt beginning index) expr
        (WrittenExpr.built_of_resolve_eq_ok hexpr) row.relation row.rhs)
      have hadded := completed_eq_ok_iff.mp hadd
      rw [Model.after, perform, hadded] at hstep
      obtain ⟨hreachable, hfinite⟩ := ih hstep hlater
      refine ⟨hreachable, ?_⟩
      intro other hother
      rcases List.mem_cons.mp hother with rfl | hother
      · exact (addConstraint_eq_ok_iff.mp hadded).1.rhs
      · exact hfinite other hother

/-- What is read from a document is reached by calls. -/
theorem reachable_ofDocument
    (hok : ofDocument document beginning = .ok model) :
    model.Reachable ∧ ∀ row ∈ document.rows, row.rhs.isFinite = true := by
  rw [ofDocument] at hok
  split at hok
  · cases hok
  · cases hassemble : assemble beginning document with
    | error error =>
        rw [hassemble] at hok
        cases hok
    | ok assembled =>
        rw [hassemble] at hok
        rw [← Except.ok.inj hok]
        rw [assemble] at hassemble
        obtain ⟨declared, hdeclared, hassemble⟩ := Reader.bind_eq_ok_iff.mp hassemble
        obtain ⟨expr, hexpr, hassemble⟩ := Reader.bind_eq_ok_iff.mp hassemble
        obtain ⟨⟨aimed, done⟩, haimed, hrows⟩ := Reader.bind_eq_ok_iff.mp hassemble
        have hstep := (Reachable.empty.declareAll hdeclared).after (.setObjective
          document.objective.sense expr (WrittenExpr.built_of_resolve_eq_ok hexpr))
        rw [Model.after, perform, completed_eq_ok_iff.mp haimed] at hstep
        obtain ⟨hreachable, hfinite⟩ := hstep.addRows hrows
        refine ⟨hreachable, ?_⟩
        intro row hrow
        obtain ⟨index, hindex⟩ := List.mem_iff_getElem?.mp hrow
        exact hfinite (row, index) (List.mem_zipIdx_iff_getElem?.mpr hindex)

theorem reachable_read
    {source : String} (hok : read source = .ok model) : model.Reachable := by
  rw [read] at hok
  split at hok
  · cases hok
  · exact (reachable_ofDocument hok).1

end Model

end LinearProgram
