import LinearProgram.Proofs.Document.Summation

/-!
# When a document denotes a model

A document denotes a model exactly when its kinds do not contradict each other, its names
are valid, its numbers and their sums are finite, its rows can be told apart and there are
ids enough.  Variables are declared one after the other and rows are added one after the
other, and every step states what it asks for, so the conditions of all steps together
are those of the document.  The main statement is `Document.ofDocument_eq_ok_iff`.
-/

namespace LinearProgram

/-! ## Conditions on documents -/

/-- The constraint that a numbered row denotes at some place, its expression resolved as given. -/
def Row.constraintAt (beginning : String) (resolve : WrittenExpr → LinearExpr) (place : Nat) :
    Row × Nat → Constraint
  | (row, index) => ⟨⟨place⟩, row.nameAt beginning index, resolve row.expr, row.relation, row.rhs⟩

/-- Whether the coefficients of an expression, their sums and the constant are finite. -/
structure WrittenExpr.IsFinite (expr : WrittenExpr) : Prop where
  coefficients : ∀ term ∈ expr.terms, term.coefficient.isFinite = true
  sums : ∀ name ∈ expr.names, (expr.sumOf name).isFinite = true
  constant : expr.constant.isFinite = true

namespace Document

/-- The names of the rows, numbered ones beginning as given. -/
def rowNames (document : Document) (beginning : String) : List Name :=
  document.rows.zipIdx.map fun (row, index) => row.nameAt beginning index

/-- The last value that the statements about a variable give to one side of its bounds. -/
def lastStated? (document : Document) (side : BoundStatement → Option Binary64) (name : String) :
    Option Binary64 :=
  ((document.bounds.filter fun statement => statement.name = name).filterMap side).getLast?

/-- From zero upward, but for the sides that statements about a variable mention. -/
def statedBounds (document : Document) (name : String) : Bounds where
  lower := (document.lastStated? BoundStatement.lower name).getD .zero
  upper := (document.lastStated? BoundStatement.upper name).getD (.infinity false)

/-- The variable that a document declares under a name at some place. -/
def variableAt (document : Document) (place : Nat) (name : String) : Variable where
  id := ⟨place⟩
  name := .ofText name
  bounds := VariableTable.boundsFor (document.kindOf name) (document.boundsOf name)
  kind := document.kindOf name

/-- The variable that a document declares under a name, at its place in the order. -/
def variableOf (document : Document) (name : String) : Variable :=
  document.variableAt (document.declarationOrder.idxOf name) name

/-- A table with the variables of a document declared in some order. -/
def declareIn (document : Document) (table : VariableTable) (order : List String) :
    VariableTable :=
  table.insertAll document.variableAt (fun _ _ => rfl) order

/-- A table with constraints added for some numbered rows. -/
def addIn (beginning : String) (resolve : WrittenExpr → LinearExpr) (table : ConstraintTable)
    (rows : List (Row × Nat)) : ConstraintTable :=
  table.insertAll (Row.constraintAt beginning resolve) (fun _ _ => rfl) rows

/-- The model of a document, with its expressions resolved as given. -/
def modelWith (document : Document) (beginning : String) (resolve : WrittenExpr → LinearExpr) :
    Model where
  columns := document.declareIn .empty document.declarationOrder
  rows := addIn beginning resolve .empty document.rows.zipIdx
  objective := some ⟨document.objective.sense, resolve document.objective.expr⟩
  alwaysOne := none

/-- The model of a document, with the sums of the coefficients. -/
def summedModel (document : Document) (beginning : String) : Model :=
  document.modelWith beginning fun expr => expr.summed document.declarationOrder

/-- The documents that denote a model. -/
structure Compiles (document : Document) (beginning : String) : Prop where
  kinds : ∀ name ∈ document.binaries, name ∉ document.generals
  names : ∀ name ∈ document.variableNames, (Name.ofText name).IsValid
  bounds : ∀ name ∈ document.variableNames, name ∉ document.binaries →
    (document.statedBounds name).isValid = true
  objective : document.objective.expr.IsFinite
  rows : ∀ row ∈ document.rows, row.expr.IsFinite
  rhs : ∀ row ∈ document.rows, row.rhs.isFinite = true
  rowNames : ∀ name ∈ document.rowNames beginning, name.IsValid
  rowDistinct : (document.rowNames beginning).Nodup
  fits : document.variableNames.length ≤ idCapacity
  rowFits : document.rows.length ≤ idCapacity

end Document

/-! ## Bounds -/

/-- Statements override each side on its own, so the last one that mentions it counts. -/
theorem Bounds.foldl_override (bounds : Bounds) (statements : List BoundStatement) :
    statements.foldl Bounds.override bounds =
      ⟨(statements.filterMap BoundStatement.lower).getLast?.getD bounds.lower,
        (statements.filterMap BoundStatement.upper).getLast?.getD bounds.upper⟩ := by
  induction statements generalizing bounds with
  | nil => rfl
  | cons statement statements ih =>
      have hside (side : BoundStatement → Option Binary64) (value : Binary64) :
          ((statement :: statements).filterMap side).getLast?.getD value =
            (statements.filterMap side).getLast?.getD ((side statement).getD value) := by
        cases hstated : side statement with
        | none => rw [List.filterMap_cons_none hstated, Option.getD_none]
        | some stated =>
            rw [List.filterMap_cons_some hstated, List.getLast?_cons, Option.getD_some,
              Option.getD_some]
      rw [List.foldl_cons, ih, hside, hside]
      rfl

theorem Document.boundsOf_eq (document : Document) (name : String) :
    document.boundsOf name = document.statedBounds name := by
  rw [boundsOf, Bounds.foldl_override]
  rfl

/-! ## Names -/

/-- With distinct keys, the key of an element is not among those before it. -/
theorem not_mem_of_nodup_map_append
    {α β : Type} {key : α → β} {front back : List α} {x : α}
    (h : ((front ++ x :: back).map key).Nodup) : key x ∉ front.map key := by
  rw [List.map_append, List.map_cons] at h
  intro hmem
  exact (List.nodup_append.mp h).2.2 _ hmem _ List.mem_cons_self rfl

namespace Document

variable {document : Document} {beginning : String}

theorem mem_declarationOrder_of_objective
    {term : WrittenTerm} (hterm : term ∈ document.objective.expr.terms) :
    term.name ∈ document.declarationOrder := by
  rw [mem_declarationOrder, mentions]
  simp only [List.mem_append, List.mem_map]
  exact .inl (.inl (.inl (.inl ⟨term, hterm, rfl⟩)))

theorem mem_declarationOrder_of_row
    {row : Row} (hrow : row ∈ document.rows) {term : WrittenTerm}
    (hterm : term ∈ row.expr.terms) :
    term.name ∈ document.declarationOrder := by
  rw [mem_declarationOrder, mentions]
  simp only [List.mem_append, List.mem_flatMap]
  exact .inl (.inl (.inl (.inr ⟨row, hrow, List.mem_map.mpr ⟨term, hterm, rfl⟩⟩)))

theorem declarationOrder_perm (document : Document) :
    document.declarationOrder.Perm document.variableNames :=
  leastMerge_perm _ _

theorem nodup_map_ofText_declarationOrder (document : Document) :
    (document.declarationOrder.map Name.ofText).Nodup :=
  document.nodup_declarationOrder.map fun _ _ hsame => Name.ofText_injective hsame

theorem map_name_variableOf (order : List String) :
    (order.map document.variableOf).map Variable.name = order.map Name.ofText := by
  rw [List.map_map]
  rfl

/-- The variables of a document stand in the order of declaration. -/
theorem vars_modelWith (document : Document) (beginning : String)
    (resolve : WrittenExpr → LinearExpr) :
    (document.modelWith beginning resolve).vars =
      document.declarationOrder.map document.variableOf := by
  have hentries := Table.entries_insertAll (.empty : VariableTable) document.variableAt
    Name.ofText (fun _ _ => rfl) (fun _ _ => rfl) document.nodup_map_ofText_declarationOrder
  refine hentries.trans (List.ext_getElem (by simp [Table.empty]) fun index hleft hright => ?_)
  have hlt : index < document.declarationOrder.length := by simpa using hright
  have hplace := document.nodup_declarationOrder.idxOf_getElem index hlt
  simp [Table.empty, variableOf, hplace]

/-- The constraints of a document are those of its rows if these can be told apart. -/
theorem constraints_modelWith (hdistinct : (document.rowNames beginning).Nodup)
    (resolve : WrittenExpr → LinearExpr) :
    (document.modelWith beginning resolve).constraints =
      document.rows.zipIdx.map fun row => Row.constraintAt beginning resolve row.2 row := by
  have hentries := Table.entries_insertAll (.empty : ConstraintTable)
    (Row.constraintAt beginning resolve) (fun row => row.1.nameAt beginning row.2)
    (fun _ _ => rfl) (fun _ _ => rfl) hdistinct
  refine hentries.trans (List.ext_getElem (by simp [Table.empty]) fun index hleft hright => ?_)
  simp [Table.empty]

end Document

/-! ## Declaring variables and adding rows -/

namespace Model

variable {document : Document} {beginning : String} {order : List String} {model next : Model}

theorem declareAll_cons
    (document : Document) (model : Model) (name : String) (order : List String) :
    declareAll document model (name :: order) =
      completed (model.declare (.ofText name) (document.boundsOf name) (document.kindOf name)) >>=
        fun found => declareAll document found.1 order := by
  rw [declareAll, List.foldlM_cons]
  cases completed
    (model.declare (.ofText name) (document.boundsOf name) (document.kindOf name)) <;> rfl

theorem addRows_cons
    (beginning : String) (order : List String) (model : Model) (row : Row) (index : Nat)
    (rows : List (Row × Nat)) :
    addRows beginning order model ((row, index) :: rows) =
      row.expr.resolve order >>= fun expr =>
        completed (model.addConstraint (row.nameAt beginning index) expr row.relation row.rhs) >>=
          fun found => addRows beginning order found.1 rows := by
  rw [addRows, List.foldlM_cons]
  dsimp only
  cases row.expr.resolve order with
  | error error => rfl
  | ok expr =>
      rw [Reader.ok_bind, Reader.ok_bind]
      cases completed
        (model.addConstraint (row.nameAt beginning index) expr row.relation row.rhs) <;> rfl

/-- Rows are added if the first one is, and then the others to the model that it leaves. -/
theorem addRows_cons_eq_ok_iff {row : Row} {index : Nat} {rows : List (Row × Nat)} :
    addRows beginning order model ((row, index) :: rows) = .ok next ↔
      ∃ found, (∃ expr, row.expr.resolve order = .ok expr ∧
        completed (model.addConstraint (row.nameAt beginning index) expr row.relation row.rhs) =
          .ok found) ∧ addRows beginning order found.1 rows = .ok next := by
  simp only [addRows_cons, Reader.bind_eq_ok_iff]
  constructor
  · rintro ⟨expr, hexpr, found, hadd, hrest⟩
    exact ⟨found, ⟨expr, hexpr, hadd⟩, hrest⟩
  · rintro ⟨found, ⟨expr, hexpr, hadd⟩, hrest⟩
    exact ⟨expr, hexpr, found, hadd, hrest⟩

/-- A variable with a fresh name is declared if its name and its bounds are valid. -/
theorem completed_declare_eq_ok_iff {name : String}
    (hfresh : Name.ofText name ∉ model.vars.map Variable.name) {found : Model × VariableId} :
    completed (model.declare (.ofText name) (document.boundsOf name) (document.kindOf name)) =
        .ok found ↔
      (Name.ofText name).IsValid ∧ (document.variableOf name).bounds.isValid = true ∧
        model.vars.length < idCapacity ∧
        found = ({ model with columns := document.declareIn model.columns [name] },
          ⟨model.vars.length⟩) := by
  rw [completed_eq_ok_iff, declare_eq_ok_iff]
  constructor
  · rintro ⟨h, hnext, hid⟩
    exact ⟨h.valid, h.bounds, h.room, Prod.ext hnext hid⟩
  · rintro ⟨hvalid, hbounds, hroom, rfl⟩
    exact ⟨⟨hvalid, hfresh, hbounds, hroom⟩, rfl, rfl⟩

/-- Variables are declared one after the other if each of them can be. -/
theorem declareAll_eq_ok_iff
    (hdistinct : (model.vars.map Variable.name ++ order.map Name.ofText).Nodup)
    (hroom : model.vars.length ≤ idCapacity) :
    declareAll document model order = .ok next ↔
      (∀ name ∈ order, (Name.ofText name).IsValid ∧
        (document.variableOf name).bounds.isValid = true) ∧
      model.vars.length + order.length ≤ idCapacity ∧
      next = { model with columns := document.declareIn model.columns order } := by
  induction order generalizing model with
  | nil =>
      constructor
      · intro hok
        exact ⟨List.forall_mem_nil _, hroom, (Except.ok.inj hok).symm⟩
      · rintro ⟨-, -, rfl⟩
        rfl
  | cons name order ih =>
      have hfresh : Name.ofText name ∉ model.vars.map Variable.name := by
        intro hmem
        exact (List.nodup_append.mp hdistinct).2.2 _ hmem _ List.mem_cons_self rfl
      let declared : Model := { model with columns := document.declareIn model.columns [name] }
      have hvars : declared.vars = model.vars ++ [document.variableAt model.vars.length name] :=
        Table.entries_insert rfl hfresh
      have hlength : declared.vars.length = model.vars.length + 1 := by
        rw [hvars, List.length_append, List.length_singleton]
      have hdistinct' : (declared.vars.map Variable.name ++ order.map Name.ofText).Nodup := by
        rw [hvars, List.map_append, List.append_assoc]
        exact hdistinct
      rw [declareAll_cons, Reader.bind_eq_ok_iff, List.forall_mem_cons, List.length_cons]
      simp only [completed_declare_eq_ok_iff hfresh]
      constructor
      · rintro ⟨found, ⟨hvalid, hbounds, hfits, rfl⟩, hlater⟩
        obtain ⟨hall, hcount, hnext⟩ := (@ih declared hdistinct' (by omega)).mp hlater
        exact ⟨⟨⟨hvalid, hbounds⟩, hall⟩, by omega, hnext⟩
      · rintro ⟨⟨⟨hvalid, hbounds⟩, hall⟩, hcount, hnext⟩
        exact ⟨_, ⟨hvalid, hbounds, by omega, rfl⟩,
          (@ih declared hdistinct' (by omega)).mpr ⟨hall, by omega, hnext⟩⟩

/-- A row is added if its numbers are finite and its name is valid and not yet taken. -/
theorem addRow_eq_ok_iff {row : Row} {index : Nat}
    (hlength : model.vars.length = order.length)
    (hnames : ∀ term ∈ row.expr.terms, term.name ∈ order) {found : Model × ConstraintId} :
    (∃ expr, row.expr.resolve order = .ok expr ∧
      completed (model.addConstraint (row.nameAt beginning index) expr row.relation row.rhs) =
        .ok found) ↔
      row.expr.IsFinite ∧ row.rhs.isFinite = true ∧ (row.nameAt beginning index).IsValid ∧
        row.nameAt beginning index ∉ model.constraints.map Constraint.name ∧
        model.constraints.length < idCapacity ∧
        found = ({ model with
            rows := Document.addIn beginning (fun expr => expr.summed order) model.rows
              [(row, index)] },
          ⟨model.constraints.length⟩) := by
  have hcheck := WrittenExpr.checkExpr_summed_iff hnames hlength
  simp only [completed_eq_ok_iff, addConstraint_eq_ok_iff]
  constructor
  · rintro ⟨expr, hresolve, hadds, hmodel, hid⟩
    obtain ⟨hcoefficients, rfl⟩ := (WrittenExpr.resolve_eq_ok_iff hnames).mp hresolve
    obtain ⟨hsums, hconstant⟩ := hcheck.mp hadds.expr
    exact ⟨⟨hcoefficients, hsums, hconstant⟩, hadds.rhs, hadds.valid, hadds.fresh, hadds.room,
      Prod.ext hmodel hid⟩
  · rintro ⟨hfinite, hrhs, hvalid, hfresh, hroom, rfl⟩
    exact ⟨_, (WrittenExpr.resolve_eq_ok_iff hnames).mpr ⟨hfinite.coefficients, rfl⟩,
      ⟨hcheck.mpr ⟨hfinite.sums, hfinite.constant⟩, hrhs, hvalid, hfresh, hroom⟩, rfl, rfl⟩

/-- Rows are added one after the other if each of them can be and their names differ. -/
theorem addRows_eq_ok_iff {rows : List (Row × Nat)}
    (hlength : model.vars.length = order.length)
    (hnames : ∀ row ∈ rows, ∀ term ∈ row.1.expr.terms, term.name ∈ order)
    (hroom : model.constraints.length ≤ idCapacity) :
    addRows beginning order model rows = .ok next ↔
      (∀ row ∈ rows, row.1.expr.IsFinite ∧ row.1.rhs.isFinite = true ∧
        (row.1.nameAt beginning row.2).IsValid) ∧
      (model.constraints.map Constraint.name ++
        rows.map fun row => row.1.nameAt beginning row.2).Nodup ∧
      model.constraints.length + rows.length ≤ idCapacity ∧
      next = { model with
        rows := Document.addIn beginning (fun expr => expr.summed order) model.rows rows } := by
  induction rows generalizing model with
  | nil =>
      rw [List.map_nil, List.append_nil]
      constructor
      · intro hok
        exact ⟨List.forall_mem_nil _, Table.nodup_names _, hroom, (Except.ok.inj hok).symm⟩
      · rintro ⟨-, -, -, rfl⟩
        rfl
  | cons row rows ih =>
      obtain ⟨row, index⟩ := row
      obtain ⟨hhere, hlater⟩ := List.forall_mem_cons.mp hnames
      let added : Model := { model with
        rows := Document.addIn beginning (fun expr => expr.summed order) model.rows
          [(row, index)] }
      have hrow := @addRow_eq_ok_iff beginning order model row index hlength hhere
      have hconstraints
          (hfresh : row.nameAt beginning index ∉ model.constraints.map Constraint.name) :
          added.constraints = model.constraints ++ [Row.constraintAt beginning
            (fun expr => expr.summed order) model.constraints.length (row, index)] :=
        Table.entries_insert rfl hfresh
      rw [addRows_cons_eq_ok_iff, List.forall_mem_cons, List.length_cons, List.map_cons,
        List.append_cons]
      simp only [hrow]
      constructor
      · rintro ⟨found, ⟨hfinite, hrhs, hvalid, hfresh, hfits, rfl⟩, hrest⟩
        have hadded := hconstraints hfresh
        have hcount : added.constraints.length = model.constraints.length + 1 := by
          rw [hadded, List.length_append, List.length_singleton]
        obtain ⟨hall, hnodup, hfits', hnext⟩ := (@ih added hlength hlater (by omega)).mp hrest
        rw [hadded, List.map_append] at hnodup
        exact ⟨⟨⟨hfinite, hrhs, hvalid⟩, hall⟩, hnodup, by omega, hnext⟩
      · rintro ⟨⟨⟨hfinite, hrhs, hvalid⟩, hall⟩, hnodup, hfits, hnext⟩
        have hfresh : row.nameAt beginning index ∉ model.constraints.map Constraint.name := by
          intro hmem
          have hfront := (List.nodup_append.mp hnodup).1
          exact (List.nodup_append.mp hfront).2.2 _ hmem _ (List.mem_singleton_self _) rfl
        have hadded := hconstraints hfresh
        have hcount : added.constraints.length = model.constraints.length + 1 := by
          rw [hadded, List.length_append, List.length_singleton]
        have hnodup' : (added.constraints.map Constraint.name ++
            rows.map fun row => row.1.nameAt beginning row.2).Nodup := by
          rw [hadded, List.map_append]
          exact hnodup
        exact ⟨_, ⟨hfinite, hrhs, hvalid, hfresh, by omega, rfl⟩,
          (@ih added hlength hlater (by omega)).mpr ⟨hall, hnodup', by omega, hnext⟩⟩

end Model

/-! ## Documents -/

namespace Document

variable {document : Document} {beginning : String}

theorem find?_conflict_eq_none_iff :
    (document.binaries.find? fun name => document.generals.contains name) = none ↔
      ∀ name ∈ document.binaries, name ∉ document.generals := by
  simp

theorem bounds_variableOf_of_mem {name : String} (h : name ∈ document.binaries) :
    (document.variableOf name).bounds = .unitInterval := by
  simp [variableOf, variableAt, VariableTable.boundsFor, kindOf, h]

theorem bounds_variableOf_of_not_mem {name : String} (h : name ∉ document.binaries) :
    (document.variableOf name).bounds = document.statedBounds name := by
  have hkind : document.kindOf name ≠ .binary := by
    simp only [kindOf, List.contains_iff_mem, h, if_false]
    split <;> exact VariableKind.noConfusion
  rw [variableOf, variableAt, VariableTable.boundsFor, if_neg hkind, boundsOf_eq]

/-- Binary variables have the unit interval, and the bounds of others are those stated. -/
theorem isValid_bounds_variableOf_iff (name : String) :
    (document.variableOf name).bounds.isValid = true ↔
      (name ∉ document.binaries → (document.statedBounds name).isValid = true) := by
  by_cases hbinary : name ∈ document.binaries
  · have hunit : Bounds.unitInterval.isValid = true := by decide
    simp [bounds_variableOf_of_mem hbinary, hbinary, hunit]
  · simp [bounds_variableOf_of_not_mem hbinary, hbinary]

/-- A document without conflicting kinds denotes a model under the other conditions. -/
theorem assemble_eq_ok_iff {model : Model} :
    Model.assemble beginning document = .ok model ↔
      ((∀ name ∈ document.declarationOrder, (Name.ofText name).IsValid ∧
          (document.variableOf name).bounds.isValid = true) ∧
        document.declarationOrder.length ≤ idCapacity) ∧
      document.objective.expr.IsFinite ∧
      ((∀ row ∈ document.rows.zipIdx, row.1.expr.IsFinite ∧ row.1.rhs.isFinite = true ∧
          (row.1.nameAt beginning row.2).IsValid) ∧
        (document.rowNames beginning).Nodup ∧ document.rows.length ≤ idCapacity) ∧
      model = document.summedModel beginning := by
  let order := document.declarationOrder
  let declared : Model := { Model.empty with columns := document.declareIn .empty order }
  let aimed : Model := { declared with
    objective := some ⟨document.objective.sense, document.objective.expr.summed order⟩ }
  have hlength : declared.vars.length = order.length := by
    have hvars : declared.vars = order.map document.variableOf :=
      document.vars_modelWith beginning fun expr => expr.summed order
    rw [hvars, List.length_map]
  have hobjective : ∀ term ∈ document.objective.expr.terms, term.name ∈ order := fun term hterm =>
    mem_declarationOrder_of_objective hterm
  have hrow : ∀ row ∈ document.rows.zipIdx, ∀ term ∈ row.1.expr.terms, term.name ∈ order :=
    fun row hrow term hterm =>
      mem_declarationOrder_of_row (List.fst_mem_of_mem_zipIdx hrow) hterm
  have hdeclare (next : Model) := @Model.declareAll_eq_ok_iff document order .empty next
    document.nodup_map_ofText_declarationOrder (Nat.zero_le _)
  have hadd := @Model.addRows_eq_ok_iff beginning order aimed model document.rows.zipIdx hlength
    hrow (Nat.zero_le _)
  have hcheck := WrittenExpr.checkExpr_summed_iff hobjective hlength
  have hcount : aimed.constraints.length + document.rows.zipIdx.length = document.rows.length := by
    rw [List.length_zipIdx]
    exact Nat.zero_add _
  change _ ↔ _ ∧ (document.rowNames beginning).Nodup ∧ _ at hadd
  rw [hcount] at hadd
  constructor
  · intro hok
    obtain ⟨next, hnext, hok⟩ := Reader.bind_eq_ok_iff.mp hok
    obtain ⟨hnames, hfits, rfl⟩ := (hdeclare next).mp hnext
    obtain ⟨expr, hexpr, hok⟩ := Reader.bind_eq_ok_iff.mp hok
    obtain ⟨hcoefficients, rfl⟩ := (WrittenExpr.resolve_eq_ok_iff hobjective).mp hexpr
    obtain ⟨⟨next, done⟩, hnext, hok⟩ := Reader.bind_eq_ok_iff.mp hok
    obtain ⟨haims, rfl⟩ := Model.setObjective_eq_ok_iff.mp (completed_eq_ok_iff.mp hnext)
    obtain ⟨hsums, hconstant⟩ := hcheck.mp haims.expr
    obtain ⟨hrows, hdistinct, hroom, rfl⟩ := hadd.mp hok
    have hfits' : order.length ≤ idCapacity := (Nat.zero_add _).symm.trans_le hfits
    exact ⟨⟨hnames, hfits'⟩, ⟨hcoefficients, hsums, hconstant⟩, ⟨hrows, hdistinct, hroom⟩, rfl⟩
  · rintro ⟨⟨hnames, hfits⟩, hfinite, ⟨hrows, hdistinct, hroom⟩, rfl⟩
    have hfits' : Model.empty.vars.length + order.length ≤ idCapacity :=
      (Nat.zero_add _).trans_le hfits
    refine Reader.bind_eq_ok_iff.mpr ⟨declared, (hdeclare _).mpr ⟨hnames, hfits', rfl⟩, ?_⟩
    refine Reader.bind_eq_ok_iff.mpr ⟨_, (WrittenExpr.resolve_eq_ok_iff hobjective).mpr
      ⟨hfinite.coefficients, rfl⟩, ?_⟩
    have haims : declared.Aims (document.objective.expr.summed order) :=
      ⟨rfl, hcheck.mpr ⟨hfinite.sums, hfinite.constant⟩⟩
    refine Reader.bind_eq_ok_iff.mpr ⟨(aimed, ()), completed_eq_ok_iff.mpr
      (Model.setObjective_eq_ok_iff.mpr ⟨haims, rfl⟩), ?_⟩
    exact hadd.mpr ⟨hrows, hdistinct, hroom, rfl⟩

theorem forall_zipIdx_rows_iff :
    (∀ row ∈ document.rows.zipIdx, row.1.expr.IsFinite ∧ row.1.rhs.isFinite = true ∧
        (row.1.nameAt beginning row.2).IsValid) ↔
      (∀ row ∈ document.rows, row.expr.IsFinite) ∧
        (∀ row ∈ document.rows, row.rhs.isFinite = true) ∧
        ∀ name ∈ document.rowNames beginning, name.IsValid := by
  have hnumbered : ∀ row ∈ document.rows, ∃ index, (row, index) ∈ document.rows.zipIdx := by
    intro row hrow
    obtain ⟨index, hindex⟩ := List.mem_iff_getElem?.mp hrow
    exact ⟨index, List.mem_zipIdx_iff_getElem?.mpr hindex⟩
  constructor
  · intro hall
    refine ⟨fun row hrow => ?_, fun row hrow => ?_, fun name hname => ?_⟩
    · obtain ⟨index, hindex⟩ := hnumbered row hrow
      exact (hall _ hindex).1
    · obtain ⟨index, hindex⟩ := hnumbered row hrow
      exact (hall _ hindex).2.1
    · obtain ⟨row, hrow, rfl⟩ := List.mem_map.mp hname
      exact (hall row hrow).2.2
  · rintro ⟨hfinite, hrhs, hvalid⟩ row hrow
    have hmem := List.fst_mem_of_mem_zipIdx hrow
    exact ⟨hfinite _ hmem, hrhs _ hmem, hvalid _ (List.mem_map.mpr ⟨row, hrow, rfl⟩)⟩

/-- A document denotes a model exactly under its conditions, and then a given one. -/
theorem ofDocument_eq_ok_iff {model : Model} :
    Model.ofDocument document beginning = .ok model ↔
      document.Compiles beginning ∧ model = document.summedModel beginning := by
  have hmapError (outcome : Except ModelError Model) :
      outcome.mapError CompileError.model = .ok model ↔ outcome = .ok model := by
    cases outcome <;> simp [Except.mapError]
  rw [Model.ofDocument]
  cases hfind : document.binaries.find? fun name => document.generals.contains name with
  | some name =>
      have hconflict : ¬∀ name ∈ document.binaries, name ∉ document.generals := by
        rw [← find?_conflict_eq_none_iff, hfind]
        exact Option.some_ne_none _
      constructor
      · intro hok
        cases hok
      · exact fun h => absurd h.1.kinds hconflict
  | none =>
      have hkinds := find?_conflict_eq_none_iff.mp hfind
      have hperm := document.declarationOrder_perm
      dsimp only
      rw [hmapError, assemble_eq_ok_iff]
      simp only [forall_zipIdx_rows_iff, isValid_bounds_variableOf_iff, hperm.mem_iff,
        hperm.length_eq]
      constructor
      · rintro ⟨⟨hnames, hfits⟩, hobjective, ⟨⟨hfinite, hrhs, hvalid⟩, hdistinct, hroom⟩, rfl⟩
        exact ⟨⟨hkinds, fun name hname => (hnames name hname).1,
          fun name hname => (hnames name hname).2, hobjective, hfinite, hrhs, hvalid, hdistinct,
          hfits, hroom⟩, rfl⟩
      · rintro ⟨h, rfl⟩
        exact ⟨⟨fun name hname => ⟨h.names name hname, h.bounds name hname⟩, h.fits⟩, h.objective,
          ⟨⟨h.rows, h.rhs, h.rowNames⟩, h.rowDistinct, h.rowFits⟩, rfl⟩

end Document

end LinearProgram
