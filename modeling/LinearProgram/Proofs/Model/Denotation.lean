import LinearProgram.Proofs.Document.Pieces
import LinearProgram.Proofs.Model.Labels
import LinearProgram.Proofs.Model.Validity

/-!
# The document of a model

A model denotes a document: its objective and its constraints with the constants taken
across, the bounds that are not the default, and the names of its integer and binary
variables.  Names are the written ones.  Nothing in the document depends on how lines
are laid out.
-/

namespace LinearProgram

open Token

/-- The sides of bounds that a bound statement mentions; none for the default bounds. -/
def Bounds.writtenSides (bounds : Bounds) : Option Binary64 × Option Binary64 :=
  let lower := some bounds.lower.dropZeroSign
  let upper := some bounds.upper.dropZeroSign
  if bounds.isDefault then (none, none)
  else if bounds.isFixed then (lower, lower)
  else if bounds.isFree then (lower, upper)
  else if bounds.lower.isZero then (none, upper)
  else if bounds.lower.isNegativeInfinity then (lower, upper)
  else if bounds.upper.isPositiveInfinity then (lower, none)
  else (lower, upper)

namespace Model

/-- The written name of the variable that an id refers to. -/
def nameOf (model : Model) (declaredNames : Bool) (id : VariableId) : String :=
  match model.vars[id.index]? with
  | some entry => (variableName declaredNames entry id.index).text
  | none => ""

def writtenTerms (model : Model) (declaredNames : Bool) (expr : LinearExpr) : List WrittenTerm :=
  expr.terms.map fun term => ⟨⟨0, 0⟩, term.2, model.nameOf declaredNames term.1⟩

/-- A row for a constraint; the constant of its expression is taken across. -/
def writtenRow (model : Model) (declaredNames : Bool) (entry : Constraint) (index : Nat) : Row where
  span := ⟨0, 0⟩
  label := some (constraintName declaredNames entry index).text
  expr := ⟨model.writtenTerms declaredNames entry.expr, .zero⟩
  relation := entry.relation
  rhs := entry.effectiveRhs.dropZeroSign

/-- The bound statement of a variable, unless it is binary or has the default bounds. -/
def writtenBound? (declaredNames : Bool) (entry : Variable) (index : Nat) :
    Option BoundStatement :=
  if entry.kind = .binary || entry.bounds.isDefault then none
  else some ⟨⟨0, 0⟩, (variableName declaredNames entry index).text,
    entry.bounds.writtenSides.1, entry.bounds.writtenSides.2⟩

/-- The written names of the variables of one kind. -/
def namesOfKind (model : Model) (declaredNames : Bool) (kind : VariableKind) : List String :=
  model.vars.zipIdx.filterMap fun (entry, index) =>
    if entry.kind = kind then some (variableName declaredNames entry index).text else none

/-- The document that a model with the given objective denotes. -/
def documentWith (model : Model) (objective : Objective) (declaredNames : Bool)
    (signature : Option String) : Document where
  signature := signature
  objective :=
    { span := ⟨0, 0⟩
      sense := objective.sense
      label := none
      expr := ⟨model.writtenTerms declaredNames objective.expr,
        objective.expr.constant.dropZeroSign⟩ }
  rows := model.constraints.zipIdx.map fun (entry, index) =>
    model.writtenRow declaredNames entry index
  bounds := model.vars.zipIdx.filterMap fun (entry, index) =>
    writtenBound? declaredNames entry index
  generals := model.namesOfKind declaredNames .integer
  binaries := model.namesOfKind declaredNames .binary

variable {model : Model}

theorem bare_writtenTerms (model : Model) (declaredNames : Bool) (expr : LinearExpr) :
    (model.writtenTerms declaredNames expr).map WrittenTerm.bare =
      model.writtenTerms declaredNames expr := by
  rw [writtenTerms, List.map_map]
  rfl

theorem nameOf_eq {declaredNames : Bool} {id : VariableId} {entry : Variable}
    (hentry : model.vars[id.index]? = some entry) :
    model.nameOf declaredNames id = (variableName declaredNames entry id.index).text := by
  rw [nameOf, hentry]

theorem unreserved_text {name : Name} (h : name.IsValid) : Unreserved name.text :=
  h.asciiLower_not_mem_reservedWords

/-! ## Parts -/

section Parts

variable {objective : Objective} {declaredNames : Bool} {signature : Option String}

theorem mem_rows_documentWith_iff {row : Row} :
    row ∈ (model.documentWith objective declaredNames signature).rows ↔
      ∃ index entry, model.constraints[index]? = some entry ∧
        model.writtenRow declaredNames entry index = row := by
  change row ∈ model.constraints.zipIdx.map _ ↔ _
  rw [List.mem_map]
  constructor
  · rintro ⟨⟨entry, index⟩, hmem, rfl⟩
    exact ⟨index, entry, List.mem_zipIdx_iff_getElem?.mp hmem, rfl⟩
  · rintro ⟨index, entry, hentry, rfl⟩
    exact ⟨(entry, index), List.mem_zipIdx_iff_getElem?.mpr hentry, rfl⟩

theorem mem_bounds_documentWith_iff {statement : BoundStatement} :
    statement ∈ (model.documentWith objective declaredNames signature).bounds ↔
      ∃ index entry, model.vars[index]? = some entry ∧
        writtenBound? declaredNames entry index = some statement := by
  change statement ∈ model.vars.zipIdx.filterMap _ ↔ _
  rw [List.mem_filterMap]
  constructor
  · rintro ⟨⟨entry, index⟩, hmem, hsome⟩
    exact ⟨index, entry, List.mem_zipIdx_iff_getElem?.mp hmem, hsome⟩
  · rintro ⟨index, entry, hentry, hsome⟩
    exact ⟨(entry, index), List.mem_zipIdx_iff_getElem?.mpr hentry, hsome⟩

theorem mem_namesOfKind_iff_exists {kind : VariableKind} {name : String} :
    name ∈ model.namesOfKind declaredNames kind ↔
      ∃ index entry, model.vars[index]? = some entry ∧ entry.kind = kind ∧
        (variableName declaredNames entry index).text = name := by
  rw [namesOfKind, List.mem_filterMap]
  constructor
  · rintro ⟨⟨entry, index⟩, hmem, hsome⟩
    dsimp only at hsome
    split at hsome
    next hkind =>
      exact ⟨index, entry, List.mem_zipIdx_iff_getElem?.mp hmem, hkind, Option.some.inj hsome⟩
    · exact nomatch hsome
  · rintro ⟨index, entry, hentry, hkind, rfl⟩
    exact ⟨(entry, index), List.mem_zipIdx_iff_getElem?.mpr hentry, if_pos hkind⟩

end Parts

/-! ## Legibility -/

theorem legible_writtenTerms (h : model.WellFormed) (declaredNames : Bool) {expr : LinearExpr}
    (hexpr : Admits model.vars expr) :
    ∀ term ∈ model.writtenTerms declaredNames expr, term.Legible := by
  intro written hwritten
  obtain ⟨term, hterm, rfl⟩ := List.mem_map.mp hwritten
  obtain ⟨entry, hentry⟩ := hexpr.exists_entry_of_term hterm
  constructor
  case finite => exact hexpr.finite term hterm
  case nonzero => exact hexpr.canonical.nonzero term hterm
  case name =>
    change Unreserved (model.nameOf declaredNames term.1)
    rw [nameOf_eq hentry]
    exact unreserved_text (h.isValid_variableName declaredNames hentry)

theorem WellFormed.isNaN_effectiveRhs (h : model.WellFormed) {entry : Constraint}
    (hentry : entry ∈ model.constraints) : entry.effectiveRhs.isNaN = false :=
  Binary64.isNaN_sub (h.rhs entry hentry) (h.rows entry hentry).constant

theorem legible_writtenRow (h : model.WellFormed) (declaredNames : Bool) {entry : Constraint}
    (hentry : entry ∈ model.constraints) (index : Nat) :
    (model.writtenRow declaredNames entry index).Legible := by
  constructor
  case label => rfl
  case expr =>
    exact ⟨legible_writtenTerms h declaredNames (h.rows entry hentry), rfl, rfl⟩
  case rhs => exact (Binary64.isNaN_dropZeroSign _).trans (h.isNaN_effectiveRhs hentry)
  case unsigned => exact Binary64.dropZeroSign_dropZeroSign _

end Model

theorem Bounds.isValid_iff {bounds : Bounds} :
    bounds.isValid = true ↔
      bounds.lower.isNaN = false ∧ bounds.upper.isNaN = false ∧
        bounds.lower.isPositiveInfinity = false ∧ bounds.upper.isNegativeInfinity = false ∧
        bounds.lower.numLe bounds.upper = true := by
  simp only [isValid, Bool.and_eq_true, Bool.not_eq_true', and_assoc]

theorem BoundStatement.legibleSide_dropZeroSign {value : Binary64} (h : value.isNaN = false) :
    LegibleSide (some value.dropZeroSign) := by
  intro side hside
  rw [← Option.some.inj hside]
  exact ⟨(Binary64.isNaN_dropZeroSign _).trans h, Binary64.dropZeroSign_dropZeroSign _⟩

theorem Bounds.legible_writtenSides {bounds : Bounds} (h : bounds.isValid = true)
    (hdefault : bounds.isDefault = false) :
    (bounds.writtenSides.1.isSome ∨ bounds.writtenSides.2.isSome) ∧
      BoundStatement.LegibleSide bounds.writtenSides.1 ∧
      BoundStatement.LegibleSide bounds.writtenSides.2 ∧
      bounds.writtenSides.1 ≠ some (.infinity false) := by
  obtain ⟨hlowerNaN, hupperNaN, hlowerInfinity, -⟩ := isValid_iff.mp h
  have hlower := BoundStatement.legibleSide_dropZeroSign hlowerNaN
  have hupper := BoundStatement.legibleSide_dropZeroSign hupperNaN
  have hnone : BoundStatement.LegibleSide none := fun value hvalue => nomatch hvalue
  have hbelow : some bounds.lower.dropZeroSign ≠ some (Binary64.infinity false) := by
    intro heq
    have hpositive := congrArg Binary64.isPositiveInfinity (Option.some.inj heq)
    rw [Binary64.isPositiveInfinity_dropZeroSign, hlowerInfinity] at hpositive
    exact Bool.noConfusion hpositive
  have hnot : none ≠ some (Binary64.infinity false) := (Option.some_ne_none _).symm
  rw [writtenSides, hdefault, if_neg Bool.false_ne_true]
  split
  · exact ⟨.inl rfl, hlower, hlower, hbelow⟩
  · split
    · exact ⟨.inl rfl, hlower, hupper, hbelow⟩
    · split
      · exact ⟨.inr rfl, hnone, hupper, hnot⟩
      · split
        · exact ⟨.inl rfl, hlower, hupper, hbelow⟩
        · split
          · exact ⟨.inl rfl, hlower, hnone, hbelow⟩
          · exact ⟨.inl rfl, hlower, hupper, hbelow⟩

namespace Model

variable {model : Model}

theorem unreserved_namesOfKind (h : model.WellFormed) (declaredNames : Bool)
    (kind : VariableKind) : ∀ name ∈ model.namesOfKind declaredNames kind, Unreserved name := by
  intro name hname
  obtain ⟨index, entry, hentry, -, rfl⟩ := mem_namesOfKind_iff_exists.mp hname
  exact unreserved_text (h.isValid_variableName declaredNames hentry)

/-- The document of a well-formed model can be read back from its tokens. -/
theorem WellFormed.legible_documentWith (h : model.WellFormed) {objective : Objective}
    (hobjective : model.objective = some objective) (declaredNames : Bool)
    (signature : Option String) :
    (model.documentWith objective declaredNames signature).Legible := by
  have hexpr := h.objective objective hobjective
  constructor
  case label => rfl
  case objective =>
    exact ⟨legible_writtenTerms h declaredNames hexpr,
      (Binary64.isFinite_dropZeroSign _).trans hexpr.constant,
      Binary64.dropZeroSign_dropZeroSign _⟩
  case rows =>
    intro row hrow
    obtain ⟨index, entry, hentry, rfl⟩ := mem_rows_documentWith_iff.mp hrow
    exact legible_writtenRow h declaredNames (List.mem_of_getElem? hentry) index
  case bounds =>
    intro statement hstatement
    obtain ⟨index, entry, hentry, hsome⟩ := mem_bounds_documentWith_iff.mp hstatement
    rw [writtenBound?] at hsome
    split at hsome
    · exact nomatch hsome
    · next hneither =>
        rw [Bool.or_eq_true, not_or, Bool.not_eq_true, Bool.not_eq_true] at hneither
        obtain ⟨hsides, hlower, hupper, hbelow⟩ := Bounds.legible_writtenSides
          (h.bounds entry (List.mem_of_getElem? hentry)) hneither.2
        rw [← Option.some.inj hsome]
        exact ⟨unreserved_text (h.isValid_variableName declaredNames hentry), hsides, hlower,
          hupper, hbelow⟩
  case generals => exact unreserved_namesOfKind h declaredNames .integer
  case binaries => exact unreserved_namesOfKind h declaredNames .binary

end Model

end LinearProgram
