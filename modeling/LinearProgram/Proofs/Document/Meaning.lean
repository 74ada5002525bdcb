import LinearProgram.Proofs.Document.Compilation

/-!
# What a document says about its model

The model of a document has one variable for every name that is mentioned, of the kind of
the section that lists it and with the bounds that were stated last.  Its objective and
its constraints are those of the document, with one term for every variable that does not
cancel.  The main statement is `Model.ofDocument_exact`: documents denote a model exactly
under their conditions, and the model is as they say.
-/

namespace LinearProgram

/--
Whether an expression over a list of variables has the constant of a written one, and a
term for every name in it whose coefficients do not cancel.
-/
def WrittenExpr.SumsTo (expr : WrittenExpr) (vars : List Variable) (sum : LinearExpr) : Prop :=
  sum.constant = expr.constant ∧
    sum.terms.map (fun term => (vars[term.1.index]?.map Variable.name, term.2)) =
      (expr.names.filter fun name => !(expr.sumOf name).isZero).map fun name =>
        (some (Name.ofText name), expr.sumOf name)

namespace Document

/-- Whether a variable is what the sections of a document say about a name. -/
structure Describes (document : Document) (name : String) (entry : Variable) : Prop where
  integer : name ∈ document.generals → entry.kind = .integer
  binary : name ∈ document.binaries → entry.kind = .binary ∧ entry.bounds = .unitInterval
  continuous : name ∉ document.generals → name ∉ document.binaries → entry.kind = .continuous
  bounds : name ∉ document.binaries → entry.bounds = document.statedBounds name

/-- Whether a model is what a document says. -/
structure Denotes (document : Document) (beginning : String) (model : Model) : Prop where
  names : (model.vars.map Variable.name).Perm (document.variableNames.map Name.ofText)
  distinct : (model.vars.map Variable.name).Nodup
  entries : ∀ name ∈ document.variableNames, ∀ entry ∈ model.vars,
    entry.name = Name.ofText name → document.Describes name entry
  objective : ∃ sum, model.objective = some ⟨document.objective.sense, sum⟩ ∧
    document.objective.expr.SumsTo model.vars sum
  count : model.constraints.length = document.rows.length
  rows : ∀ (index : Nat) (row : Row), document.rows[index]? = some row → ∃ sum,
    model.constraints[index]? =
        some ⟨⟨index⟩, row.nameAt beginning index, sum, row.relation, row.rhs⟩ ∧
      row.expr.SumsTo model.vars sum
  alwaysOne : model.alwaysOne = none

variable {document : Document} {beginning : String}

theorem describes_variableOf (hkinds : ∀ name ∈ document.binaries, name ∉ document.generals)
    (name : String) : document.Describes name (document.variableOf name) := by
  constructor
  case integer =>
    intro hgeneral
    have hbinary : name ∉ document.binaries := fun hmem => hkinds name hmem hgeneral
    simp [variableOf, variableAt, kindOf, hgeneral, hbinary]
  case binary =>
    intro hbinary
    exact ⟨by simp [variableOf, variableAt, kindOf, hbinary], bounds_variableOf_of_mem hbinary⟩
  case continuous =>
    intro hgeneral hbinary
    simp [variableOf, variableAt, kindOf, hgeneral, hbinary]
  case bounds => exact bounds_variableOf_of_not_mem

/-- The sums of an expression refer to the variables of its names. -/
theorem sumsTo_summed {expr : WrittenExpr}
    (hnames : ∀ term ∈ expr.terms, term.name ∈ document.declarationOrder) :
    expr.SumsTo (document.declarationOrder.map document.variableOf)
      (expr.summed document.declarationOrder) := by
  refine ⟨rfl, ?_⟩
  have hkept : (expr.summed document.declarationOrder).terms =
      (expr.names.filter fun name => !(expr.sumOf name).isZero).map fun name =>
        (⟨document.declarationOrder.idxOf name⟩, expr.sumOf name) := by
    rw [WrittenExpr.summed, LinearExpr.dropZeros, List.filter_map]
    rfl
  rw [hkept, List.map_map]
  refine List.map_congr_left fun name hname => ?_
  obtain ⟨term, hterm, rfl⟩ := WrittenExpr.mem_names.mp (List.mem_of_mem_filter hname)
  have hget : document.declarationOrder[document.declarationOrder.idxOf term.name]? =
      some term.name := List.getElem?_idxOf (hnames term hterm)
  simp only [Function.comp_apply, List.getElem?_map, hget, Option.map_some, variableOf, variableAt]

theorem vars_summedModel (document : Document) (beginning : String) :
    (document.summedModel beginning).vars = document.declarationOrder.map document.variableOf :=
  document.vars_modelWith beginning _

theorem Compiles.constraints_summedModel (h : document.Compiles beginning) :
    (document.summedModel beginning).constraints = document.rows.zipIdx.map fun row =>
      Row.constraintAt beginning (fun expr => expr.summed document.declarationOrder) row.2 row :=
  constraints_modelWith h.rowDistinct _

theorem Compiles.denotes_summedModel (h : document.Compiles beginning) :
    document.Denotes beginning (document.summedModel beginning) := by
  have hvars := document.vars_summedModel beginning
  have hconstraints := h.constraints_summedModel
  constructor
  case names =>
    rw [hvars, map_name_variableOf]
    exact document.declarationOrder_perm.map Name.ofText
  case distinct =>
    rw [hvars, map_name_variableOf]
    exact document.nodup_map_ofText_declarationOrder
  case entries =>
    intro name _ entry hentry hname
    rw [hvars] at hentry
    obtain ⟨other, -, rfl⟩ := List.mem_map.mp hentry
    obtain rfl := Name.ofText_injective hname
    exact describes_variableOf h.kinds other
  case objective =>
    rw [hvars]
    exact ⟨_, rfl, sumsTo_summed fun term hterm => mem_declarationOrder_of_objective hterm⟩
  case count =>
    rw [hconstraints, List.length_map, List.length_zipIdx]
  case rows =>
    intro index row hrow
    rw [hvars, hconstraints]
    refine ⟨row.expr.summed document.declarationOrder, ?_, ?_⟩
    · simp only [List.getElem?_map, List.getElem?_zipIdx, hrow, Option.map_some, Nat.zero_add,
        Row.constraintAt]
    · exact sumsTo_summed fun term hterm =>
        mem_declarationOrder_of_row (List.mem_of_getElem? hrow) hterm
  case alwaysOne => rfl

end Document

/-- A document denotes a model exactly under its conditions, and the model is as it says. -/
theorem Model.ofDocument_exact (document : Document) (beginning : String) :
    ((∃ model, ofDocument document beginning = .ok model) ↔ document.Compiles beginning) ∧
      ∀ model, ofDocument document beginning = .ok model → document.Denotes beginning model := by
  constructor
  · constructor
    · rintro ⟨model, hok⟩
      exact (Document.ofDocument_eq_ok_iff.mp hok).1
    · intro h
      exact ⟨_, Document.ofDocument_eq_ok_iff.mpr ⟨h, rfl⟩⟩
  · intro model hok
    obtain ⟨h, rfl⟩ := Document.ofDocument_eq_ok_iff.mp hok
    exact h.denotes_summedModel

/-- A blend with terms that cancel, a row with a label and one without, and repeated bounds. -/
def blend : String :=
  "Maximize\n 3 oats + rye - oats - rye\nSubject To\n store: oats + rye >= 1\n" ++
    " oats + 2 oats + nuts <= 9\nBounds\n oats <= 4\n 1 <= oats\n oats <= 3\n" ++
    "Generals\n nuts\nEnd\n"

theorem Model.ofDocument_exact_blend :
    ∃ document model, Document.parse blend = .ok document ∧
      ofDocument document defaultRowBeginning = .ok model ∧
      document.Denotes defaultRowBeginning model ∧
      document.rows.map Row.label = [some "store", none] ∧
      model.constraints.map Constraint.name = [.flat "store", .flat "R1"] := by
  have hread : ∃ document, (Document.parse blend).toOption = some document ∧
      document.rows.map Row.label = [some "store", none] ∧
      ∃ model, (ofDocument document defaultRowBeginning).toOption = some model ∧
        model.constraints.map Constraint.name = [.flat "store", .flat "R1"] := by decide +kernel
  obtain ⟨document, hdocument, hlabels, model, hmodel, hnames⟩ := hread
  have hok := Reader.eq_ok_of_toOption_eq_some hmodel
  exact ⟨document, model, Reader.eq_ok_of_toOption_eq_some hdocument, hok,
    (ofDocument_exact document _).2 model hok, hlabels, hnames⟩

end LinearProgram
