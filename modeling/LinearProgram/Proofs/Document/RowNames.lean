import LinearProgram.Proofs.Document.Compilation
import LinearProgram.Proofs.Model.Labels

/-!
# Names of rows

A row without a label is named by its number among all rows, whatever labels the other
rows have.  Numbered names differ from each other, so rows with different labels can be
told apart unless a label is the name of a numbered row.  Then the later one of the two
rows is refused, even if the document denotes a model with its rows numbered behind
another beginning.  The main statement is `Document.ofDocument_duplicate_row`.
-/

namespace LinearProgram

/-! ## Steps that refuse no row -/

theorem bind_eq_error_iff {α β ε : Type} {x : Except ε α} {f : α → Except ε β} {error : ε} :
    x >>= f = .error error ↔ x = .error error ∨ ∃ a, x = .ok a ∧ f a = .error error := by
  cases x <;> simp [bind, Except.bind]

/-- Whether a step does not refuse a row as a duplicate. -/
def SparesRows {α : Type} (x : Except ModelError α) : Prop :=
  ∀ row, x ≠ .error (.duplicateConstraintName row)

section Steps

variable {α β : Type} {x : Except ModelError α} {f : α → Except ModelError β} {error : ModelError}

theorem sparesRows_ok (a : α) : SparesRows (.ok a) :=
  fun _ herror => nomatch herror

theorem sparesRows_error (h : ∀ row, error ≠ .duplicateConstraintName row) :
    SparesRows (.error error : Except ModelError α) :=
  fun row herror => h row (Except.error.inj herror)

theorem SparesRows.bind (hx : SparesRows x) (hf : ∀ a, SparesRows (f a)) :
    SparesRows (x >>= f) := by
  intro row h
  rcases bind_eq_error_iff.mp h with herror | ⟨a, -, herror⟩
  · exact hx row herror
  · exact hf a row herror

/-- A step that is given up with another error first, if something is wrong. -/
theorem SparesRows.guarded {wrong : Prop} [Decidable wrong] {f : Unit → Except ModelError β}
    {rest : Except ModelError β} (h : ∀ row, error ≠ .duplicateConstraintName row)
    (hrest : SparesRows rest) : SparesRows (if wrong then throw error >>= f else rest) := by
  split
  · exact sparesRows_error h
  · exact hrest

/-- What another step gives up with does not refuse a row if the step does not. -/
theorem SparesRows.of_eq_error {β : Type} (hx : SparesRows x) (herror : x = .error error) :
    SparesRows (.error error : Except ModelError β) :=
  sparesRows_error fun row hrow => hx row (hrow ▸ herror)

theorem SparesRows.completed {σ : Type} {outcome : σ × Except ModelError α}
    (h : SparesRows outcome.2) : SparesRows (completed outcome) :=
  fun row hrefused => h row (completed_eq_error_iff.mp hrefused)

theorem SparesRows.mapM {f : α → Except ModelError β} (h : ∀ a, SparesRows (f a))
    (xs : List α) : SparesRows (xs.mapM f) := by
  induction xs with
  | nil => exact sparesRows_ok _
  | cons a xs ih =>
      rw [List.mapM_cons]
      exact (h a).bind fun _ => ih.bind fun _ => sparesRows_ok _

theorem SparesRows.foldlM {f : β → α → Except ModelError β} (h : ∀ b a, SparesRows (f b a))
    (xs : List α) (b : β) : SparesRows (xs.foldlM f b) := by
  induction xs generalizing b with
  | nil => exact sparesRows_ok _
  | cons a xs ih =>
      rw [List.foldlM_cons]
      exact (h b a).bind ih

end Steps

theorem sparesRows_ofTerms? (terms : List (VariableId × Binary64)) :
    SparesRows (LinearExpr.ofTerms? terms) := by
  rw [LinearExpr.ofTerms?]
  split
  · exact sparesRows_error fun _ => ModelError.noConfusion
  · exact sparesRows_ok _

theorem sparesRows_resolve (expr : WrittenExpr) (order : List String) :
    SparesRows (expr.resolve order) := by
  rw [WrittenExpr.resolve]
  refine (SparesRows.mapM (fun term => ?_) expr.terms).bind fun terms =>
    (sparesRows_ofTerms? terms).bind fun _ => sparesRows_ok _
  split
  · exact sparesRows_ok _
  · exact sparesRows_error fun _ => ModelError.noConfusion

namespace Model

variable {document : Document} {beginning : String} {order : List String} {model : Model}

theorem sparesRows_check (name : Name) : SparesRows name.check := by
  rw [Name.check]
  split
  · exact sparesRows_error fun _ => ModelError.noConfusion
  · exact sparesRows_ok _

theorem sparesRows_checkNext (table : VariableTable) (name : Name) (bounds : Bounds)
    (kind : VariableKind) : SparesRows (table.checkNext name bounds kind) := by
  refine (sparesRows_check name).bind fun _ => ?_
  refine .guarded (fun _ => ModelError.noConfusion) ?_
  refine .guarded (fun _ => ModelError.noConfusion) ?_
  split
  · exact sparesRows_error fun _ => ModelError.noConfusion
  · exact sparesRows_ok _

theorem sparesRows_declare (name : Name) (bounds : Bounds) (kind : VariableKind) :
    SparesRows (model.declare name bounds kind).2 := by
  rw [declare, VariableTable.declare]
  cases hcheck : model.columns.checkNext name bounds kind with
  | error error => exact (sparesRows_checkNext _ name bounds kind).of_eq_error hcheck
  | ok done => exact sparesRows_ok _

theorem sparesRows_declareAll : SparesRows (declareAll document model order) :=
  SparesRows.foldlM (fun _ _ => (sparesRows_declare _ _ _).completed.bind fun _ => sparesRows_ok _)
    order model

theorem sparesRows_checkExpr (expr : LinearExpr) : SparesRows (model.checkExpr expr) := by
  rw [checkExpr]
  split
  · exact sparesRows_error fun _ => ModelError.noConfusion
  · split
    · exact sparesRows_error fun _ => ModelError.noConfusion
    · exact sparesRows_ok _

theorem sparesRows_setObjective (sense : Sense) (expr : LinearExpr) :
    SparesRows (model.setObjective sense expr).2 := by
  have hspares : SparesRows (model.checkObjective expr) :=
    .guarded (fun _ => ModelError.noConfusion) (sparesRows_checkExpr expr)
  rw [setObjective]
  cases hcheck : model.checkObjective expr with
  | error error => exact hspares.of_eq_error hcheck
  | ok done => exact sparesRows_ok _

/-! ## Refused rows -/

theorem checkNext_eq_duplicate_iff {table : ConstraintTable} {name row : Name} :
    table.checkNext name = .error (.duplicateConstraintName row) ↔
      name.IsValid ∧ name ∈ table.entries.map Constraint.name ∧ name = row := by
  rw [ConstraintTable.checkNext, ← Name.check_eq_ok_iff, ← Table.lookup?_isSome_iff]
  cases hname : name.check with
  | error error =>
      have hne : error ≠ .duplicateConstraintName row := fun heq =>
        sparesRows_check name row (heq ▸ hname)
      simpa [bind, Except.bind] using hne
  | ok done =>
      by_cases htaken : (table.lookup? name).isSome = true
      · simp [bind, Except.bind, htaken, throw, throwThe, MonadExceptOf.throw]
      · by_cases hfull : idCapacity ≤ table.entries.length <;>
          simp [bind, Except.bind, htaken, hfull, throw, throwThe, MonadExceptOf.throw, pure,
            Except.pure]

theorem sparesRows_checkRow (expr : LinearExpr) (rhs : Binary64) :
    SparesRows (model.checkRow expr rhs) := by
  refine (sparesRows_checkExpr expr).bind fun _ => ?_
  split
  · exact sparesRows_error fun _ => ModelError.noConfusion
  · exact sparesRows_ok _

/-- A constraint is refused as a duplicate if its name is taken and nothing else is wrong. -/
theorem addConstraint_eq_duplicate_iff {name row : Name} {expr : LinearExpr}
    {relation : Relation} {rhs : Binary64} :
    (model.addConstraint name expr relation rhs).2 = .error (.duplicateConstraintName row) ↔
      model.checkExpr expr = .ok () ∧ rhs.isFinite = true ∧ name.IsValid ∧
        name ∈ model.constraints.map Constraint.name ∧ name = row := by
  rw [addConstraint, ← and_assoc, ← checkRow_eq_ok_iff]
  cases hcheck : model.checkRow expr rhs with
  | error error =>
      have hspares := (sparesRows_checkRow expr rhs).of_eq_error (β := ConstraintId) hcheck
      refine ⟨fun h => absurd h (hspares row), ?_⟩
      rintro ⟨hchecked, -⟩
      cases hchecked
  | ok done =>
      have hnext : model.rows.checkNext name = .error (.duplicateConstraintName row) ↔
          name.IsValid ∧ name ∈ model.constraints.map Constraint.name ∧ name = row :=
        checkNext_eq_duplicate_iff
      rw [ConstraintTable.add, ← hnext]
      cases model.rows.checkNext name with
      | error error => simp
      | ok done => simp

/-- The names of rows that are numbered behind a given beginning. -/
def numberedNames (beginning : String) (rows : List (Row × Nat)) : List Name :=
  rows.map fun (row, index) => row.nameAt beginning index

variable {rows : List (Row × Nat)}

/-- A row is refused as a duplicate only if names repeat. -/
theorem not_nodup_of_addRows_eq_duplicate {row : Name}
    (h : addRows beginning order model rows = .error (.duplicateConstraintName row)) :
    ¬(model.constraints.map Constraint.name ++ numberedNames beginning rows).Nodup := by
  induction rows generalizing model with
  | nil => exact nomatch h
  | cons first rows ih =>
      obtain ⟨first, index⟩ := first
      rw [addRows_cons, bind_eq_error_iff] at h
      rcases h with hresolve | ⟨expr, -, h⟩
      · exact absurd hresolve (sparesRows_resolve _ _ row)
      rw [bind_eq_error_iff] at h
      rcases h with hrefused | ⟨⟨next, id⟩, hadded, hrest⟩
      · obtain ⟨-, -, -, htaken, -⟩ :=
          addConstraint_eq_duplicate_iff.mp (completed_eq_error_iff.mp hrefused)
        intro hnodup
        exact (List.nodup_append.mp hnodup).2.2 _ htaken _ List.mem_cons_self rfl
      · obtain ⟨hadds, rfl, -⟩ := addConstraint_eq_ok_iff.mp (completed_eq_ok_iff.mp hadded)
        have hrepeated := ih hrest
        rw [hadds.constraints_withRow, List.map_append, List.append_assoc] at hrepeated
        exact hrepeated

/-- If names repeat and nothing else is wrong, some row is refused as a duplicate. -/
theorem exists_addRows_eq_duplicate
    (hlength : model.vars.length = order.length)
    (hnames : ∀ row ∈ rows, ∀ term ∈ row.1.expr.terms, term.name ∈ order)
    (hrows : ∀ row ∈ rows, row.1.expr.IsFinite ∧ row.1.rhs.isFinite = true ∧
      (row.1.nameAt beginning row.2).IsValid)
    (hroom : model.constraints.length + rows.length ≤ idCapacity)
    (hrepeated : ¬(model.constraints.map Constraint.name ++
      numberedNames beginning rows).Nodup) :
    ∃ row, addRows beginning order model rows = .error (.duplicateConstraintName row) := by
  induction rows generalizing model with
  | nil =>
      rw [numberedNames, List.map_nil, List.append_nil] at hrepeated
      exact absurd (Table.nodup_names _) hrepeated
  | cons first rows ih =>
      obtain ⟨first, index⟩ := first
      obtain ⟨hhere, hlater⟩ := List.forall_mem_cons.mp hnames
      obtain ⟨⟨hfinite, hrhs, hvalid⟩, hothers⟩ := List.forall_mem_cons.mp hrows
      rw [List.length_cons] at hroom
      -- Rows are added one by one until the first one whose name an earlier row has.
      by_cases htaken : first.nameAt beginning index ∈ model.constraints.map Constraint.name
      · have hcheck := (WrittenExpr.checkExpr_summed_iff hhere hlength).mpr
          ⟨hfinite.sums, hfinite.constant⟩
        refine ⟨first.nameAt beginning index, ?_⟩
        rw [addRows_cons, (WrittenExpr.resolve_eq_ok_iff hhere).mpr ⟨hfinite.coefficients, rfl⟩,
          Reader.ok_bind, completed_eq_error_iff.mpr
            (addConstraint_eq_duplicate_iff.mpr ⟨hcheck, hrhs, hvalid, htaken, rfl⟩)]
        rfl
      · obtain ⟨⟨next, id⟩, expr, hresolve, hadded⟩ : ∃ found expr, first.expr.resolve order =
            .ok expr ∧ completed (model.addConstraint (first.nameAt beginning index) expr
              first.relation first.rhs) = .ok found :=
          ⟨_, (addRow_eq_ok_iff hlength hhere).mpr ⟨hfinite, hrhs, hvalid, htaken, by omega, rfl⟩⟩
        obtain ⟨hadds, rfl, -⟩ := addConstraint_eq_ok_iff.mp (completed_eq_ok_iff.mp hadded)
        have hmore := hadds.constraints_withRow first.relation
        rw [addRows_cons, hresolve, Reader.ok_bind, hadded, Reader.ok_bind]
        apply ih
        · exact hlength
        · exact hlater
        · exact hothers
        · rw [hmore, List.length_append, List.length_singleton]
          omega
        · rw [hmore, List.map_append, List.append_assoc]
          exact hrepeated

end Model

namespace Document

variable {document : Document} {beginning other : String}

theorem ofDocument_eq_model_error_iff {error : ModelError} :
    Model.ofDocument document beginning = .error (.model error) ↔
      (∀ name ∈ document.binaries, name ∉ document.generals) ∧
        Model.assemble beginning document = .error error := by
  rw [Model.ofDocument, ← find?_conflict_eq_none_iff]
  cases document.binaries.find? fun name => document.generals.contains name with
  | some name => simp
  | none => cases Model.assemble beginning document <;> simp [Except.mapError]

theorem assemble_eq_ok_of_ofDocument {model : Model}
    (h : Model.ofDocument document beginning = .ok model) :
    Model.assemble beginning document = .ok model := by
  rw [Model.ofDocument] at h
  split at h
  · cases h
  · cases hassemble : Model.assemble beginning document with
    | error error =>
        rw [hassemble] at h
        cases h
    | ok found =>
        rw [hassemble] at h
        exact congrArg Except.ok (Except.ok.inj h)

/-- The model that a document declares and aims at before its rows are added. -/
structure Aims (document : Document) (aimed : Model) : Prop where
  length : aimed.vars.length = document.declarationOrder.length
  constraints : aimed.constraints = []
  assemble : ∀ beginning, Model.assemble beginning document =
    Model.addRows beginning document.declarationOrder aimed document.rows.zipIdx

theorem aims_of_setObjective {declared aimed : Model} {objective : LinearExpr}
    (hdeclared : Model.declareAll document .empty document.declarationOrder = .ok declared)
    (hobjective : document.objective.expr.resolve document.declarationOrder = .ok objective)
    (haimed : completed (declared.setObjective document.objective.sense objective) =
      .ok (aimed, ())) :
    document.Aims aimed := by
  obtain ⟨-, -, heq⟩ := (@Model.declareAll_eq_ok_iff document document.declarationOrder .empty
    declared document.nodup_map_ofText_declarationOrder (Nat.zero_le _)).mp hdeclared
  obtain ⟨-, rfl⟩ := Model.setObjective_eq_ok_iff.mp (completed_eq_ok_iff.mp haimed)
  have hvars : declared.vars = document.declarationOrder.map document.variableOf := by
    rw [heq]
    exact document.vars_modelWith Model.defaultRowBeginning fun expr =>
      expr.summed document.declarationOrder
  have hrows : declared.constraints = [] := by
    rw [heq]
    rfl
  refine ⟨?_, hrows, fun beginning => ?_⟩
  · change declared.vars.length = _
    rw [hvars, List.length_map]
  rw [Model.assemble]
  dsimp only
  rw [hdeclared, Reader.ok_bind, hobjective, Reader.ok_bind, haimed, Reader.ok_bind]

/-- Before its rows are added, the model of a document does not depend on their names. -/
theorem exists_aims {model : Model} (h : Model.assemble other document = .ok model) :
    ∃ aimed, document.Aims aimed := by
  obtain ⟨declared, hdeclared, h⟩ := Reader.bind_eq_ok_iff.mp h
  obtain ⟨objective, hobjective, h⟩ := Reader.bind_eq_ok_iff.mp h
  obtain ⟨⟨aimed, done⟩, haimed, -⟩ := Reader.bind_eq_ok_iff.mp h
  exact ⟨aimed, aims_of_setObjective hdeclared hobjective haimed⟩

theorem mem_declarationOrder_of_zipIdx {entry : Row × Nat} (hentry : entry ∈ document.rows.zipIdx)
    {term : WrittenTerm} (hterm : term ∈ entry.1.expr.terms) :
    term.name ∈ document.declarationOrder :=
  mem_declarationOrder_of_row (List.fst_mem_of_mem_zipIdx hentry) hterm

/-- A row of a document is refused as a duplicate only if names repeat. -/
theorem not_nodup_rowNames {row : Name}
    (h : Model.ofDocument document beginning = .error (.model (.duplicateConstraintName row))) :
    ¬(document.rowNames beginning).Nodup := by
  obtain ⟨-, h⟩ := ofDocument_eq_model_error_iff.mp h
  rw [Model.assemble, bind_eq_error_iff] at h
  rcases h with herror | ⟨declared, hdeclared, h⟩
  · exact absurd herror (Model.sparesRows_declareAll row)
  rw [bind_eq_error_iff] at h
  rcases h with herror | ⟨objective, hobjective, h⟩
  · exact absurd herror (sparesRows_resolve _ _ row)
  rw [bind_eq_error_iff] at h
  rcases h with herror | ⟨⟨aimed, done⟩, haimed, h⟩
  · exact absurd herror ((Model.sparesRows_setObjective _ _).completed row)
  have hrepeated := Model.not_nodup_of_addRows_eq_duplicate h
  rwa [(aims_of_setObjective hdeclared hobjective haimed).constraints] at hrepeated

/-- If names repeat but the document denotes a model, numbered otherwise, a row is refused. -/
theorem exists_duplicate_of_not_nodup {model : Model}
    (hother : Model.ofDocument document other = .ok model)
    (hvalid : ∀ name ∈ document.rowNames beginning, name.IsValid)
    (hrepeated : ¬(document.rowNames beginning).Nodup) :
    ∃ row, Model.ofDocument document beginning =
      .error (.model (.duplicateConstraintName row)) := by
  have h : document.Compiles other := (ofDocument_eq_ok_iff.mp hother).1
  obtain ⟨aimed, haims⟩ := exists_aims (assemble_eq_ok_of_ofDocument hother)
  have hrows : ∀ entry ∈ document.rows.zipIdx, entry.1.expr.IsFinite ∧
      entry.1.rhs.isFinite = true ∧ (entry.1.nameAt beginning entry.2).IsValid := by
    intro entry hentry
    have hmem := List.fst_mem_of_mem_zipIdx hentry
    exact ⟨h.rows _ hmem, h.rhs _ hmem, hvalid _ (List.mem_map.mpr ⟨entry, hentry, rfl⟩)⟩
  have hroom : aimed.constraints.length + document.rows.zipIdx.length ≤ idCapacity := by
    rw [haims.constraints, List.length_nil, Nat.zero_add, List.length_zipIdx]
    exact h.rowFits
  obtain ⟨row, hrow⟩ := Model.exists_addRows_eq_duplicate haims.length
    (fun _ hentry _ hterm => mem_declarationOrder_of_zipIdx hentry hterm) hrows hroom
    (by rwa [haims.constraints])
  refine ⟨row, ofDocument_eq_model_error_iff.mpr ⟨h.kinds, ?_⟩⟩
  rw [haims.assemble, hrow]

/-! ## Numbered rows -/

/-- The names that labels give to rows. -/
def labelNames (document : Document) : List Name :=
  document.rows.filterMap fun row => row.label.map Name.ofText

/-- Whether some label is the name of a row without a label. -/
def LabelsNumber (document : Document) (beginning : String) : Prop :=
  ∃ entry ∈ document.rows.zipIdx, entry.1.label = none ∧
    Name.flat (beginning ++ toString entry.2) ∈ document.labelNames

instance : Decidable (document.LabelsNumber beginning) :=
  inferInstanceAs (Decidable (∃ entry ∈ document.rows.zipIdx, entry.1.label = none ∧
    Name.flat (beginning ++ toString entry.2) ∈ document.labelNames))

theorem nameAt_eq_flat {row : Row} (h : row.label = none) (beginning : String) (index : Nat) :
    row.nameAt beginning index = .flat (beginning ++ toString index) := by
  rw [Row.nameAt, h]

theorem nameAt_eq_ofText {row : Row} {label : String} (h : row.label = some label)
    (beginning : String) (index : Nat) : row.nameAt beginning index = .ofText label := by
  rw [Row.nameAt, h]

theorem mem_labelNames {name : Name} :
    name ∈ document.labelNames ↔
      ∃ row ∈ document.rows, ∃ label, row.label = some label ∧ Name.ofText label = name := by
  simp [labelNames, Option.map_eq_some_iff]

theorem flat_numbered_injective {m n : Nat}
    (h : Name.flat (beginning ++ toString m) = .flat (beginning ++ toString n)) : m = n := by
  have htexts : beginning ++ toString m = beginning ++ toString n := congrArg Name.template h
  have hchars := congrArg String.toList htexts
  rw [String.toList_append, String.toList_append] at hchars
  exact Name.toDigits_injective (by simpa using hchars)

/-- Rows with different labels are at the same place if their labels name them alike. -/
theorem eq_of_nodup_labelNames (hdistinct : document.labelNames.Nodup) {i j : Nat} {a b : Row}
    (ha : document.rows[i]? = some a) (hb : document.rows[j]? = some b) {label label' : String}
    (hlabel : a.label = some label) (hlabel' : b.label = some label')
    (heq : Name.ofText label = Name.ofText label') : i = j := by
  have hpairs := List.pairwise_filterMap.mp hdistinct
  rw [List.pairwise_iff_getElem] at hpairs
  obtain ⟨hi, rfl⟩ := List.getElem?_eq_some_iff.mp ha
  obtain ⟨hj, rfl⟩ := List.getElem?_eq_some_iff.mp hb
  have hname : (document.rows[i].label.map Name.ofText) = some (Name.ofText label) := by
    rw [hlabel, Option.map_some]
  have hname' : (document.rows[j].label.map Name.ofText) = some (Name.ofText label) := by
    rw [hlabel', Option.map_some, heq]
  rcases Nat.lt_trichotomy i j with hlt | hsame | hgt
  · exact absurd rfl (hpairs i j hi hj hlt _ hname _ hname')
  · exact hsame
  · exact absurd rfl (hpairs j i hj hi hgt _ hname' _ hname)

/-- Row names repeat if some label is the name of a numbered row, and only then. -/
theorem nodup_rowNames_iff (hdistinct : document.labelNames.Nodup) :
    (document.rowNames beginning).Nodup ↔ ¬document.LabelsNumber beginning := by
  constructor
  · rintro hnodup ⟨⟨row, index⟩, hentry, hnone, htaken⟩
    obtain ⟨other, hother, label, hlabel, hname⟩ := mem_labelNames.mp htaken
    obtain ⟨place, hplace⟩ := List.mem_iff_getElem?.mp hother
    have hrow : document.rows[index]? = some row := List.mem_zipIdx_iff_getElem?.mp hentry
    have hsame : row.nameAt beginning index = other.nameAt beginning place := by
      rw [nameAt_eq_flat hnone, nameAt_eq_ofText hlabel, hname]
    have hplaced {i : Nat} {a : Row} (ha : document.rows[i]? = some a) :
        document.rows.zipIdx[i]? = some (a, i) := by
      rw [List.getElem?_zipIdx, ha, Option.map_some, Nat.zero_add]
    obtain rfl : index = place :=
      Model.eq_of_nodup_map hnodup (hplaced hrow) (hplaced hplace) hsame
    obtain rfl : row = other := Option.some.inj (hrow.symm.trans hplace)
    exact nomatch hnone.symm.trans hlabel
  · intro hfree
    refine Model.nodup_zipIdx_map fun i j a b ha hb heq => ?_
    -- Either of two rows may be the numbered one, so this is stated for both ways round.
    have hnumbers {i j : Nat} {a b : Row} {label : String} (ha : document.rows[i]? = some a)
        (hb : document.rows[j]? = some b) (hnone : a.label = none) (hlabel : b.label = some label)
        (heq : a.nameAt beginning i = b.nameAt beginning j) : False := by
      rw [nameAt_eq_flat hnone, nameAt_eq_ofText hlabel] at heq
      refine hfree ⟨(a, i), List.mem_zipIdx_iff_getElem?.mpr ha, hnone, ?_⟩
      exact mem_labelNames.mpr ⟨b, List.mem_of_getElem? hb, label, hlabel, heq.symm⟩
    cases hlabel : a.label with
    | none =>
        cases hlabel' : b.label with
        | none =>
            dsimp only at heq
            rw [nameAt_eq_flat hlabel, nameAt_eq_flat hlabel'] at heq
            exact flat_numbered_injective heq
        | some label' => exact (hnumbers ha hb hlabel hlabel' heq).elim
    | some label =>
        cases hlabel' : b.label with
        | none => exact (hnumbers hb ha hlabel' hlabel heq.symm).elim
        | some label' =>
            dsimp only at heq
            rw [nameAt_eq_ofText hlabel, nameAt_eq_ofText hlabel'] at heq
            exact eq_of_nodup_labelNames hdistinct ha hb hlabel hlabel' heq

theorem isValid_rowNames (hvalid : ∀ name ∈ document.labelNames, name.IsValid) :
    ∀ name ∈ document.rowNames Model.defaultRowBeginning, name.IsValid := by
  intro name hname
  obtain ⟨⟨row, index⟩, hentry, rfl⟩ := List.mem_map.mp hname
  dsimp only
  cases hlabel : row.label with
  | none =>
      have hnumbered : Name.flat (Model.defaultRowBeginning ++ toString index) =
          .numbered 'R' index :=
        congrArg Name.flat (String.toList_injective (by simp [Model.defaultRowBeginning]))
      rw [nameAt_eq_flat hlabel, hnumbered]
      exact Name.isValid_numbered (by decide) index
  | some label =>
      rw [nameAt_eq_ofText hlabel]
      exact hvalid _ (mem_labelNames.mpr ⟨row, List.fst_mem_of_mem_zipIdx hentry, label, hlabel,
        rfl⟩)

/--
When generated row names break a document.  Let the labels give valid names that differ.
If no label is the name of a numbered row, all row names differ and no row is refused as
a duplicate.  If some label is, then the document denotes no model, and a row is refused
as a duplicate if the document denotes a model with another beginning of row names.
-/
theorem ofDocument_duplicate_row
    (hvalid : ∀ name ∈ document.labelNames, name.IsValid) (hdistinct : document.labelNames.Nodup) :
    (¬document.LabelsNumber Model.defaultRowBeginning →
      (document.rowNames Model.defaultRowBeginning).Nodup ∧
        ∀ row, Model.ofDocument document Model.defaultRowBeginning ≠
          .error (.model (.duplicateConstraintName row))) ∧
      (document.LabelsNumber Model.defaultRowBeginning →
        (∀ model, Model.ofDocument document Model.defaultRowBeginning ≠ .ok model) ∧
          ∀ other model, Model.ofDocument document other = .ok model →
            ∃ row, Model.ofDocument document Model.defaultRowBeginning =
              .error (.model (.duplicateConstraintName row))) := by
  constructor
  · intro hfree
    have hnodup := (nodup_rowNames_iff hdistinct).mpr hfree
    exact ⟨hnodup, fun row hrefused => not_nodup_rowNames hrefused hnodup⟩
  · intro htaken
    have hrepeated : ¬(document.rowNames Model.defaultRowBeginning).Nodup := fun hnodup =>
      (nodup_rowNames_iff hdistinct).mp hnodup htaken
    constructor
    · intro model hok
      exact hrepeated (ofDocument_eq_ok_iff.mp hok).1.rowDistinct
    · intro other model hother
      exact exists_duplicate_of_not_nodup hother (isValid_rowNames hvalid) hrepeated

/-- A numbered row in front of a row that has its name as a label. -/
def numberTaken : Document :=
  let span : Span := ⟨0, 0⟩
  let rice : WrittenExpr := ⟨[⟨span, .one, "rice"⟩], .zero⟩
  { signature := none
    objective := ⟨span, .minimize, none, rice⟩
    rows := [⟨span, none, rice, .le, .one⟩, ⟨span, some "R0", rice, .ge, .zero⟩]
    bounds := []
    generals := []
    binaries := [] }

/-- The same rows the other way round, so that the numbered one has another name. -/
def numberFree : Document :=
  { numberTaken with rows := numberTaken.rows.reverse }

theorem isValid_labelNames_numberTaken : ∀ name ∈ numberTaken.labelNames, name.IsValid := by
  have hlabels : numberTaken.labelNames = [.numbered 'R' 0] := by decide
  rw [hlabels, List.forall_mem_singleton]
  exact Name.isValid_numbered (by decide) 0

theorem exists_ofDocument_numberTaken : ∃ model, Model.ofDocument numberTaken "row" = .ok model :=
  Reader.exists_of_isSome_toOption (by decide +kernel)

theorem ofDocument_duplicate_row_numberTaken :
    (numberTaken.LabelsNumber Model.defaultRowBeginning ∧
        ∃ row, Model.ofDocument numberTaken Model.defaultRowBeginning =
          .error (.model (.duplicateConstraintName row))) ∧
      ¬numberFree.LabelsNumber Model.defaultRowBeginning ∧
        numberFree.rowNames Model.defaultRowBeginning = [.flat "R0", .flat "R1"] ∧
        ∀ row, Model.ofDocument numberFree Model.defaultRowBeginning ≠
          .error (.model (.duplicateConstraintName row)) := by
  have hvalid := isValid_labelNames_numberTaken
  have hvalid' : ∀ name ∈ numberFree.labelNames, name.IsValid := hvalid
  have htaken : numberTaken.LabelsNumber Model.defaultRowBeginning := by decide
  have hfree : ¬numberFree.LabelsNumber Model.defaultRowBeginning := by decide
  obtain ⟨model, hmodel⟩ := exists_ofDocument_numberTaken
  have hrefused := (ofDocument_duplicate_row hvalid (by decide)).2 htaken
  have haccepted := (ofDocument_duplicate_row hvalid' (by decide)).1 hfree
  exact ⟨⟨htaken, hrefused.2 "row" model hmodel⟩, hfree, by decide, haccepted.2⟩

/-- Labels that are valid and differ do not keep generated names apart from them. -/
theorem not_forall_ofDocument_duplicate_row :
    ¬∀ document : Document, (∀ name ∈ document.labelNames, name.IsValid) →
      document.labelNames.Nodup → ∀ row,
        Model.ofDocument document Model.defaultRowBeginning ≠
          .error (.model (.duplicateConstraintName row)) := by
  intro hall
  have hvalid := isValid_labelNames_numberTaken
  obtain ⟨model, hmodel⟩ := exists_ofDocument_numberTaken
  obtain ⟨row, hrefused⟩ := exists_duplicate_of_not_nodup hmodel (isValid_rowNames hvalid)
    (by decide : ¬(numberTaken.rowNames Model.defaultRowBeginning).Nodup)
  exact hall numberTaken hvalid (by decide) row hrefused

end Document

end LinearProgram
