import LinearProgram.Proofs.Model.Mentions
import Mathlib.Data.List.Perm.Subperm

/-!
# The model behind a denoted document

The document of a valid model is read as a model of its own: the mentioned variables in
an order of declaration that may differ from the first one, and the same constraints with
their constants taken across.  This module says what that model is, entry by entry, and
that it denotes the document that it was read from, so that nothing is lost but the
places of variables and the variables that are never mentioned.  The main statements are
`WellFormed.ofDocument_documentWith` and `WellFormed.documentWith_reread`.
-/

namespace LinearProgram

namespace Model

/-- The model that the document of a model is read as. -/
def reread (model : Model) (objective : Objective) (declaredNames : Bool) : Model :=
  (model.documentWith objective declaredNames none).model defaultRowBeginning

/-- The order in which the variables of a model are declared when it is read back. -/
def rereadOrder (model : Model) (objective : Objective) (declaredNames : Bool) : List String :=
  (model.documentWith objective declaredNames none).declarationOrder

/-- The place that a variable gets when the model is read back. -/
def rereadPlace
    (model : Model) (objective : Objective) (declaredNames : Bool) (index : Nat) : Nat :=
  (model.rereadOrder objective declaredNames).idxOf (model.nameOf declaredNames ⟨index⟩)

variable {model : Model} {objective : Objective} {declaredNames : Bool}

/-! ## The order of declaration -/

/-- The sections of the document, each of which lists variables in order of declaration. -/
def listedNames
    (model : Model) (objective : Objective) (declaredNames : Bool) : List (List String) :=
  [(model.documentWith objective declaredNames none).bounds.map BoundStatement.name,
    model.namesOfKind declaredNames .integer, model.namesOfKind declaredNames .binary]

theorem sublist_of_mem_listedNames
    {names : List String} (hnames : names ∈ model.listedNames objective declaredNames) :
    names.Sublist (model.names declaredNames) := by
  simp only [listedNames, List.mem_cons, List.not_mem_nil, or_false] at hnames
  rcases hnames with rfl | rfl | rfl
  · exact boundNames_sublist model objective declaredNames none
  · exact namesOfKind_sublist .integer
  · exact namesOfKind_sublist .binary

theorem WellFormed.listings_documentWith
    (h : model.WellFormed) (objective : Objective) (declaredNames : Bool) :
    (model.documentWith objective declaredNames none).listings =
      model.listedNames objective declaredNames := by
  have hdistinct : ∀ names ∈ model.listedNames objective declaredNames,
      names.eraseDups = names := by
    intro names hnames
    exact eraseDups_eq_self
      ((sublist_of_mem_listedNames hnames).nodup (h.nodup_names declaredNames))
  have hsections : (model.documentWith objective declaredNames none).listings =
      (model.listedNames objective declaredNames).map List.eraseDups := rfl
  rw [hsections, List.map_congr_left hdistinct, List.map_id']

/-- Read back, each section is what the order of declaration leaves of its names. -/
theorem WellFormed.filter_rereadOrder
    (h : model.WellFormed) {names : List String}
    (hnames : names ∈ model.listedNames objective declaredNames) :
    ((model.rereadOrder objective declaredNames).filter fun name => name ∈ names) = names := by
  rw [← h.listings_documentWith] at hnames
  refine Document.filter_declarationOrder (model.documentWith objective declaredNames none)
    (fun name => (model.names declaredNames).idxOf name) ?_ hnames
  intro listed hlisted
  rw [h.listings_documentWith] at hlisted
  exact (pairwise_idxOf (h.nodup_names declaredNames)).sublist
    (sublist_of_mem_listedNames hlisted)

theorem WellFormed.length_rereadOrder_le
    (h : model.WellFormed) (hobjective : model.objective = some objective) :
    (model.rereadOrder objective declaredNames).length ≤ model.vars.length := by
  have hsubset : model.rereadOrder objective declaredNames ⊆ model.names declaredNames := by
    intro name hname
    obtain ⟨index, entry, hentry, rfl⟩ := h.exists_of_mem_mentions hobjective
      ((Document.mem_declarationOrder _).mp hname)
    exact List.mem_of_getElem? (getElem?_names declaredNames hentry)
  have hle := ((Document.nodup_declarationOrder _).subperm hsubset).length_le
  rwa [length_names] at hle

/-! ## Reading the document -/

theorem WellFormed.plain_writtenTerms
    (h : model.WellFormed) {expr : LinearExpr} (hexpr : Admits model.vars expr)
    (declaredNames : Bool) {constant : Binary64} (hconstant : constant.isFinite = true) :
    WrittenExpr.Plain ⟨model.writtenTerms declaredNames expr, constant⟩ := by
  constructor
  · rw [map_name_writtenTerms]
    refine hexpr.canonical.distinct.map_on ?_
    intro id hid id' hid' heq
    obtain ⟨entry, hentry⟩ := hexpr.exists_entry hid
    obtain ⟨entry', hentry'⟩ := hexpr.exists_entry hid'
    rw [nameOf_eq hentry, nameOf_eq hentry'] at heq
    exact congrArg VariableId.mk (h.eq_of_text_variableName hentry hentry' heq).1
  · intro written hwritten
    obtain ⟨term, hterm, rfl⟩ := List.mem_map.mp hwritten
    exact hexpr.finite term hterm
  · intro written hwritten
    obtain ⟨term, hterm, rfl⟩ := List.mem_map.mp hwritten
    exact hexpr.canonical.nonzero term hterm
  · exact hconstant

/-- A constraint as it is read back. -/
def rereadConstraint
    (model : Model) (objective : Objective) (declaredNames : Bool) :
    Constraint × Nat → Constraint
  | (entry, index) =>
    ⟨⟨index⟩, constraintName declaredNames entry index,
      WrittenExpr.resolved ⟨model.writtenTerms declaredNames entry.expr, .zero⟩
        (model.rereadOrder objective declaredNames),
      entry.relation, entry.effectiveRhs.dropZeroSign⟩

theorem WellFormed.constraints_documentWith
    (h : model.WellFormed) (objective : Objective) (declaredNames : Bool) (beginning : String) :
    (model.documentWith objective declaredNames none).constraints beginning =
      model.constraints.zipIdx.map (model.rereadConstraint objective declaredNames) := by
  apply List.ext_getElem?
  intro index
  simp only [Document.constraints, documentWith, List.getElem?_map, List.getElem?_zipIdx]
  cases hentry : model.constraints[index]? with
  | none => rfl
  | some entry =>
      have hname := (h.isValid_constraintName declaredNames hentry).ofText_text
      simp only [Option.map_some, Nat.zero_add, rereadConstraint, Row.constraint,
        Row.constraintAt, writtenRow, Row.nameAt, hname]
      rfl

theorem WellFormed.nodup_constraintNames
    (h : model.WellFormed) (objective : Objective) (declaredNames : Bool) (beginning : String) :
    (((model.documentWith objective declaredNames none).constraints beginning).map
      Constraint.name).Nodup := by
  rw [h.constraints_documentWith, List.map_map]
  apply nodup_zipIdx_map
  intro i j a b ha hb heq
  exact h.constraintName_injective ha hb heq

theorem WellFormed.plain_documentWith
    (h : model.WellFormed) (hobjective : model.objective = some objective)
    (hfinite : ∀ entry ∈ model.constraints, entry.effectiveRhs.isFinite = true)
    (declaredNames : Bool) (beginning : String) :
    (model.documentWith objective declaredNames none).Plain beginning := by
  constructor
  case kinds =>
    intro name hbinary hgeneral
    obtain ⟨index, entry, hentry, rfl⟩ := exists_of_mem_namesOfKind hbinary
    have hkind := (h.mem_namesOfKind_iff hentry).mp hbinary
    exact VariableKind.noConfusion (hkind.symm.trans ((h.mem_namesOfKind_iff hentry).mp hgeneral))
  case names =>
    intro name hname
    obtain ⟨index, entry, hentry, rfl⟩ := h.exists_of_mem_mentions hobjective hname
    have hvalid := h.isValid_variableName declaredNames hentry
    rw [hvalid.ofText_text]
    exact hvalid
  case bounds =>
    intro name hname
    obtain ⟨index, entry, hentry, rfl⟩ := h.exists_of_mem_mentions hobjective hname
    rw [Document.variableOf, h.variableAt_documentWith hentry]
    exact Bounds.isValid_dropZeroSigns.trans (h.bounds entry (List.mem_of_getElem? hentry))
  case fits => exact Nat.le_trans (h.length_rereadOrder_le hobjective) h.fits
  case objective =>
    have hexpr := h.objective objective hobjective
    exact h.plain_writtenTerms hexpr declaredNames
      ((Binary64.isFinite_dropZeroSign _).trans hexpr.constant)
  case rows =>
    intro row hrow
    obtain ⟨index, entry, hentry, rfl⟩ := mem_rows_documentWith_iff.mp hrow
    exact h.plain_writtenTerms (h.rows entry (List.mem_of_getElem? hentry)) declaredNames rfl
  case rhs =>
    intro row hrow
    obtain ⟨index, entry, hentry, rfl⟩ := mem_rows_documentWith_iff.mp hrow
    exact (Binary64.isFinite_dropZeroSign _).trans (hfinite entry (List.mem_of_getElem? hentry))
  case rowNames =>
    intro row hrow
    rw [h.constraints_documentWith] at hrow
    obtain ⟨⟨entry, index⟩, hmem, rfl⟩ := List.mem_map.mp hrow
    exact h.isValid_constraintName declaredNames (List.mem_zipIdx_iff_getElem?.mp hmem)
  case rowDistinct => exact h.nodup_constraintNames objective declaredNames beginning
  case rowFits =>
    have hrows : (model.documentWith objective declaredNames none).rows.length =
        model.constraints.length := by
      simp [documentWith]
    rw [hrows]
    exact h.rowFits

/-- The document of a well-formed model with finite right-hand sides can be read. -/
theorem WellFormed.ofDocument_documentWith
    (h : model.WellFormed) (hobjective : model.objective = some objective)
    (hfinite : ∀ entry ∈ model.constraints, entry.effectiveRhs.isFinite = true)
    (declaredNames : Bool) (signature : Option String) :
    ofDocument (model.documentWith objective declaredNames signature) defaultRowBeginning =
      .ok (model.reread objective declaredNames) := by
  exact (h.plain_documentWith hobjective hfinite declaredNames defaultRowBeginning).ofDocument_eq

/-! ## Entry by entry -/

theorem vars_reread (model : Model) (objective : Objective) (declaredNames : Bool) :
    (model.reread objective declaredNames).vars =
      (model.rereadOrder objective declaredNames).map
        (model.documentWith objective declaredNames none).variableOf :=
  Document.vars_model _ _

theorem WellFormed.constraints_reread
    (h : model.WellFormed) (objective : Objective) (declaredNames : Bool) :
    (model.reread objective declaredNames).constraints =
      model.constraints.zipIdx.map (model.rereadConstraint objective declaredNames) :=
  (Document.constraints_model (h.nodup_constraintNames objective declaredNames _)).trans
    (h.constraints_documentWith objective declaredNames _)

theorem WellFormed.nameOf_mem_rereadOrder
    (h : model.WellFormed) (declaredNames : Bool) (hobjective : model.objective = some objective)
    {index : Nat} {entry : Variable} (hentry : model.vars[index]? = some entry)
    (hmentions : model.Mentions index) :
    model.nameOf declaredNames ⟨index⟩ ∈ model.rereadOrder objective declaredNames := by
  rw [nameOf_eq hentry, rereadOrder, Document.mem_declarationOrder,
    h.mem_mentions_iff hobjective hentry]
  exact hmentions

theorem WellFormed.getElem?_reread
    (h : model.WellFormed) (hobjective : model.objective = some objective) {index : Nat}
    {entry : Variable} (hentry : model.vars[index]? = some entry)
    (hmentions : model.Mentions index) :
    (model.reread objective declaredNames).vars[model.rereadPlace objective declaredNames index]? =
      some ⟨⟨model.rereadPlace objective declaredNames index⟩,
        variableName declaredNames entry index, entry.bounds.dropZeroSigns, entry.kind⟩ := by
  have hmem := h.nameOf_mem_rereadOrder declaredNames hobjective hentry hmentions
  rw [vars_reread, List.getElem?_map, rereadPlace, List.getElem?_idxOf hmem, Option.map_some,
    nameOf_eq hentry]
  exact congrArg some (h.variableAt_documentWith hentry _)

theorem terms_resolved_writtenTerms
    (expr : LinearExpr) (constant : Binary64) :
    (WrittenExpr.resolved ⟨model.writtenTerms declaredNames expr, constant⟩
      (model.rereadOrder objective declaredNames)).terms =
      expr.terms.map fun term =>
        (⟨model.rereadPlace objective declaredNames term.1.index⟩, term.2) := by
  rw [WrittenExpr.resolved, writtenTerms, List.map_map]
  rfl

/-! ## The document again -/

theorem nameOf_reread
    {name : String} (hname : name ∈ model.rereadOrder objective declaredNames) :
    (model.reread objective declaredNames).nameOf true
      ⟨(model.rereadOrder objective declaredNames).idxOf name⟩ = name := by
  have hentry : (model.reread objective declaredNames).vars[
      (model.rereadOrder objective declaredNames).idxOf name]? =
      some ((model.documentWith objective declaredNames none).variableOf name) := by
    rw [vars_reread, List.getElem?_map, List.getElem?_idxOf hname]
    rfl
  exact (nameOf_eq hentry).trans (Name.text_ofText name)

theorem writtenTerms_reread
    {terms : List WrittenTerm} {constant : Binary64}
    (hnames : ∀ term ∈ terms, term.name ∈ model.rereadOrder objective declaredNames) :
    (model.reread objective declaredNames).writtenTerms true
      (WrittenExpr.resolved ⟨terms, constant⟩ (model.rereadOrder objective declaredNames)) =
      terms.map WrittenTerm.bare := by
  rw [writtenTerms, WrittenExpr.resolved, List.map_map]
  apply List.map_congr_left
  intro term hterm
  rw [Function.comp_apply, nameOf_reread (hnames term hterm)]
  rfl

/-- What is made of the names in a section only comes out in the order of the section. -/
theorem WellFormed.filterMap_rereadOrder
    (h : model.WellFormed) {names : List String}
    (hnames : names ∈ model.listedNames objective declaredNames) {β : Type}
    {f : String → Option β}
    (hnone : ∀ name ∈ model.rereadOrder objective declaredNames, name ∉ names → f name = none) :
    (model.rereadOrder objective declaredNames).filterMap f = names.filterMap f := by
  have hfilter := h.filter_rereadOrder hnames
  conv_rhs => rw [← hfilter]
  rw [List.filterMap_filter]
  apply List.filterMap_congr
  intro name hname
  by_cases hmem : name ∈ names
  · simp [hmem]
  · simp [hmem, hnone name hname hmem]

/-- The statement that is written for a name once the document has been read. -/
def rereadBound?
    (model : Model) (objective : Objective) (declaredNames : Bool) (name : String) :
    Option BoundStatement :=
  writtenBound? true ((model.documentWith objective declaredNames none).variableOf name) 0

theorem WellFormed.rereadBound?_eq
    (h : model.WellFormed) {index : Nat} {entry : Variable}
    (hentry : model.vars[index]? = some entry) :
    model.rereadBound? objective declaredNames (variableName declaredNames entry index).text =
      writtenBound? declaredNames entry index := by
  rw [rereadBound?, Document.variableOf, h.variableAt_documentWith hentry, writtenBound?,
    writtenBound?, Bounds.isDefault_dropZeroSigns, Bounds.writtenSides_dropZeroSigns]
  rfl

theorem filterMap_vars_reread
    {β : Type} (f : Variable → Option β) :
    ((model.reread objective declaredNames).vars.zipIdx.filterMap fun x => f x.1) =
      (model.rereadOrder objective declaredNames).filterMap fun name =>
        f ((model.documentWith objective declaredNames none).variableOf name) := by
  have hentries := List.zipIdx_map_fst 0 (model.reread objective declaredNames).vars
  calc (model.reread objective declaredNames).vars.zipIdx.filterMap (fun x => f x.1)
      = ((model.reread objective declaredNames).vars.zipIdx.map Prod.fst).filterMap f :=
        (List.filterMap_map ..).symm
    _ = ((model.rereadOrder objective declaredNames).map
          (model.documentWith objective declaredNames none).variableOf).filterMap f := by
        rw [hentries, vars_reread]
    _ = _ := List.filterMap_map ..

theorem WellFormed.bounds_reread
    (h : model.WellFormed) (declaredNames : Bool) (hobjective : model.objective = some objective)
    (objective' : Objective) (signature : Option String) :
    ((model.reread objective declaredNames).documentWith objective' true signature).bounds =
      (model.documentWith objective declaredNames none).bounds := by
  have hnames : (model.documentWith objective declaredNames none).bounds.map
      BoundStatement.name ∈ model.listedNames objective declaredNames := List.mem_cons_self
  have horder : ((model.reread objective declaredNames).documentWith objective' true
      signature).bounds =
      (model.rereadOrder objective declaredNames).filterMap
        (model.rereadBound? objective declaredNames) :=
    filterMap_vars_reread fun entry => writtenBound? true entry 0
  rw [horder, h.filterMap_rereadOrder hnames, List.filterMap_map]
  · refine (List.filterMap_congr ?_).trans (List.filterMap_some ..)
    intro statement hstatement
    obtain ⟨index, entry, hentry, hsome⟩ := mem_bounds_documentWith_iff.mp hstatement
    rw [Function.comp_apply, name_of_writtenBound?_eq_some hsome, h.rereadBound?_eq hentry, hsome]
  · intro name hname hnot
    obtain ⟨index, entry, hentry, rfl⟩ :=
      h.exists_of_mem_mentions hobjective ((Document.mem_declarationOrder _).mp hname)
    rw [h.rereadBound?_eq hentry, Option.eq_none_iff_forall_ne_some]
    intro statement hsome
    refine hnot (List.mem_map.mpr ⟨statement, ?_, name_of_writtenBound?_eq_some hsome⟩)
    exact mem_bounds_documentWith_iff.mpr ⟨index, entry, hentry, hsome⟩

theorem WellFormed.namesOfKind_reread
    (h : model.WellFormed) (declaredNames : Bool) (hobjective : model.objective = some objective)
    (kind : VariableKind)
    (hnames : model.namesOfKind declaredNames kind ∈ model.listedNames objective declaredNames) :
    (model.reread objective declaredNames).namesOfKind true kind =
      model.namesOfKind declaredNames kind := by
  have horder : (model.reread objective declaredNames).namesOfKind true kind =
      (model.rereadOrder objective declaredNames).filterMap fun name =>
        if (model.documentWith objective declaredNames none).kindOf name = kind then some name
        else none := by
    refine (filterMap_vars_reread fun entry : Variable =>
      if entry.kind = kind then some entry.name.text else none).trans ?_
    apply List.filterMap_congr
    intro name _
    rw [Document.variableOf, Document.variableAt, Name.text_ofText]
  rw [horder, h.filterMap_rereadOrder hnames]
  · refine (List.filterMap_congr ?_).trans (List.filterMap_some ..)
    intro name hname
    obtain ⟨index, entry, hentry, rfl⟩ := exists_of_mem_namesOfKind hname
    rw [h.kindOf_documentWith hentry, if_pos ((h.mem_namesOfKind_iff hentry).mp hname)]
  · intro name hname hnot
    obtain ⟨index, entry, hentry, rfl⟩ :=
      h.exists_of_mem_mentions hobjective ((Document.mem_declarationOrder _).mp hname)
    rw [h.mem_namesOfKind_iff hentry] at hnot
    rw [h.kindOf_documentWith hentry, if_neg hnot]

/-- The objective that the document is read with. -/
def rereadObjective
    (model : Model) (objective : Objective) (declaredNames : Bool) : Objective :=
  ⟨objective.sense, WrittenExpr.resolved
    ⟨model.writtenTerms declaredNames objective.expr, objective.expr.constant.dropZeroSign⟩
    (model.rereadOrder objective declaredNames)⟩

theorem objective_reread :
    (model.reread objective declaredNames).objective =
      some (model.rereadObjective objective declaredNames) :=
  rfl

theorem writtenRow_reread
    (objective : Objective) (declaredNames : Bool) {index : Nat} {entry : Constraint}
    (hentry : model.constraints[index]? = some entry)
    (hfinite : entry.effectiveRhs.isFinite = true) :
    (model.reread objective declaredNames).writtenRow true
      (model.rereadConstraint objective declaredNames (entry, index)) index =
      model.writtenRow declaredNames entry index := by
  have hrow : model.writtenRow declaredNames entry index ∈
      (model.documentWith objective declaredNames none).rows :=
    mem_rows_documentWith_iff.mpr ⟨index, entry, hentry, rfl⟩
  have hterms : (model.reread objective declaredNames).writtenTerms true
      (model.rereadConstraint objective declaredNames (entry, index)).expr =
      model.writtenTerms declaredNames entry.expr :=
    (writtenTerms_reread fun term hterm =>
      Document.mem_declarationOrder_of_row hrow hterm).trans (bare_writtenTerms ..)
  have hrhs : (model.rereadConstraint objective declaredNames
      (entry, index)).effectiveRhs.dropZeroSign = entry.effectiveRhs.dropZeroSign := by
    have hdrop : entry.effectiveRhs.dropZeroSign.isFinite = true :=
      (Binary64.isFinite_dropZeroSign _).trans hfinite
    exact (Binary64.dropZeroSign_sub_zero hdrop).trans (Binary64.dropZeroSign_dropZeroSign _)
  rw [writtenRow, writtenRow, hterms, hrhs]
  rfl

theorem WellFormed.rows_reread
    (h : model.WellFormed) (objective : Objective) (declaredNames : Bool)
    (hfinite : ∀ entry ∈ model.constraints, entry.effectiveRhs.isFinite = true)
    (objective' : Objective) (signature : Option String) :
    ((model.reread objective declaredNames).documentWith objective' true signature).rows =
      (model.documentWith objective declaredNames signature).rows := by
  change (List.zipIdx (model.reread objective declaredNames).constraints).map _ = _
  rw [h.constraints_reread]
  apply List.ext_getElem?
  intro index
  simp only [documentWith, List.getElem?_map, List.getElem?_zipIdx]
  cases hentry : model.constraints[index]? with
  | none => rfl
  | some entry =>
      have hrow := writtenRow_reread objective declaredNames hentry
        (hfinite entry (List.mem_of_getElem? hentry))
      simp only [Option.map_some, Nat.zero_add, hrow]

/-- The model that a document is read as denotes this document. -/
theorem WellFormed.documentWith_reread
    (h : model.WellFormed) (hobjective : model.objective = some objective)
    (hfinite : ∀ entry ∈ model.constraints, entry.effectiveRhs.isFinite = true)
    (declaredNames : Bool) (signature : Option String) :
    (model.reread objective declaredNames).documentWith
      (model.rereadObjective objective declaredNames) true signature =
      model.documentWith objective declaredNames signature := by
  have hterms : (model.reread objective declaredNames).writtenTerms true
      (model.rereadObjective objective declaredNames).expr =
      model.writtenTerms declaredNames objective.expr :=
    (writtenTerms_reread fun term hterm =>
      Document.mem_declarationOrder_of_objective hterm).trans (bare_writtenTerms ..)
  have hobjectives : ObjectiveSection.mk ⟨0, 0⟩ objective.sense none
      ⟨(model.reread objective declaredNames).writtenTerms true
        (model.rereadObjective objective declaredNames).expr,
        objective.expr.constant.dropZeroSign.dropZeroSign⟩ =
      (model.documentWith objective declaredNames signature).objective := by
    rw [hterms, Binary64.dropZeroSign_dropZeroSign]
    rfl
  have hrows := h.rows_reread objective declaredNames hfinite
    (model.rereadObjective objective declaredNames) signature
  have hbounds := h.bounds_reread declaredNames hobjective
    (model.rereadObjective objective declaredNames) signature
  have hintegers := h.namesOfKind_reread declaredNames hobjective .integer
    (by simp [listedNames])
  have hbinaries := h.namesOfKind_reread declaredNames hobjective .binary
    (by simp [listedNames])
  rw [documentWith, documentWith]
  exact (Document.mk.injEq ..).mpr ⟨rfl, hobjectives, hrows, hbounds, hintegers, hbinaries⟩

end Model

end LinearProgram
