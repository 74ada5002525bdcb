import LinearProgram.Compilation
import LinearProgram.Proofs.Model.Calls

/-!
# Reachable models

A model is reached from the empty one by calls, some of which may fail.  A failing call
leaves the model as it was, or with the variable that is always one declared.  Every
reachable model is well formed: names are valid and distinct, bounds are valid, and
expressions are canonical, finite and over declared variables.
-/

namespace LinearProgram

namespace Model

/-- The models that calls lead to. -/
inductive Reachable : Model → Prop where
  | empty : Reachable .empty
  | after {model : Model} (call : Call) : Reachable model → Reachable (model.after call)

/-- The model after some calls on the empty one. -/
def run (calls : List Call) : Model :=
  calls.foldl after empty

/-- Expressions that a list of variables can carry. -/
structure Admits (vars : List Variable) (expr : LinearExpr) : Prop where
  canonical : expr.Canonical
  declared : ∀ id ∈ expr.vars, id.index < vars.length
  finite : ∀ term ∈ expr.terms, term.2.isFinite = true
  constant : expr.constant.isFinite = true

/-- What the checks of every call make sure of. -/
structure WellFormed (model : Model) : Prop where
  names : ∀ entry ∈ model.vars, entry.name.IsValid
  distinct : (model.vars.map Variable.name).Nodup
  bounds : ∀ entry ∈ model.vars, entry.bounds.isValid = true
  binaries : ∀ entry ∈ model.vars, entry.kind = .binary → entry.bounds = .unitInterval
  fits : model.vars.length ≤ idCapacity
  rowNames : ∀ entry ∈ model.constraints, entry.name.IsValid
  rowDistinct : (model.constraints.map Constraint.name).Nodup
  rowFits : model.constraints.length ≤ idCapacity
  rows : ∀ entry ∈ model.constraints, Admits model.vars entry.expr
  rhs : ∀ entry ∈ model.constraints, entry.rhs.isFinite = true
  objective : ∀ objective ∈ model.objective, Admits model.vars objective.expr

theorem wellFormed_empty : WellFormed .empty where
  names _ h := absurd h List.not_mem_nil
  distinct := List.nodup_nil
  bounds _ h := absurd h List.not_mem_nil
  binaries _ h := absurd h List.not_mem_nil
  fits := Nat.zero_le _
  rowNames _ h := absurd h List.not_mem_nil
  rowDistinct := List.nodup_nil
  rowFits := Nat.zero_le _
  rows _ h := absurd h List.not_mem_nil
  rhs _ h := absurd h List.not_mem_nil
  objective _ h := nomatch h

theorem Admits.mono {vars vars' : List Variable} {expr : LinearExpr} (h : Admits vars expr)
    (hle : vars.length ≤ vars'.length) : Admits vars' expr :=
  { h with declared := fun id hid => Nat.lt_of_lt_of_le (h.declared id hid) hle }

theorem Admits.exists_entry {vars : List Variable} {expr : LinearExpr} (h : Admits vars expr)
    {id : VariableId} (hid : id ∈ expr.vars) : ∃ entry, vars[id.index]? = some entry :=
  ⟨_, List.getElem?_eq_getElem (h.declared id hid)⟩

theorem Admits.exists_entry_of_term {vars : List Variable} {expr : LinearExpr}
    (h : Admits vars expr) {term : VariableId × Binary64} (hterm : term ∈ expr.terms) :
    ∃ entry, vars[term.1.index]? = some entry :=
  h.exists_entry (List.mem_map.mpr ⟨term, hterm, rfl⟩)

theorem admits_of_checkExpr {model : Model} {expr : LinearExpr} (hbuilt : expr.Built)
    (hok : model.checkExpr expr = .ok ()) : Admits model.vars expr := by
  obtain ⟨hdeclared, hfinite, hconstant⟩ := (checkExpr_eq_ok_iff model expr).mp hok
  exact ⟨hbuilt.canonical, hdeclared, hfinite, hconstant⟩

variable {model next : Model}

/-! ## Single calls -/

theorem WellFormed.withVariable (h : model.WellFormed) {name : Name} {bounds : Bounds}
    {kind : VariableKind} (hdeclares : model.Declares name bounds kind) :
    (model.withVariable name bounds kind).WellFormed := by
  have hvars := hdeclares.vars_withVariable
  have hlonger : model.vars.length ≤ (model.withVariable name bounds kind).vars.length :=
    Table.entries_prefix_insert rfl |>.length_le
  constructor
  case names =>
    rw [hvars]
    exact List.forall_mem_append.mpr ⟨h.names, List.forall_mem_singleton.mpr hdeclares.valid⟩
  case distinct => exact Table.nodup_names _
  case bounds =>
    rw [hvars]
    exact List.forall_mem_append.mpr ⟨h.bounds, List.forall_mem_singleton.mpr hdeclares.bounds⟩
  case binaries =>
    rw [hvars]
    exact List.forall_mem_append.mpr
      ⟨h.binaries, List.forall_mem_singleton.mpr fun hkind => if_pos hkind⟩
  case fits =>
    rw [hvars, List.length_append]
    exact hdeclares.room
  case rowNames => exact h.rowNames
  case rowDistinct => exact h.rowDistinct
  case rowFits => exact h.rowFits
  case rows => exact fun entry hentry => (h.rows entry hentry).mono hlonger
  case rhs => exact h.rhs
  case objective => exact fun objective hsome => (h.objective objective hsome).mono hlonger

theorem WellFormed.withOne (h : model.WellFormed) (hdeclares : model.DeclaresOne) :
    model.withOne.WellFormed :=
  { h.withVariable hdeclares.declares with }

theorem WellFormed.withRow (h : model.WellFormed) {name : Name} {expr : LinearExpr}
    (hbuilt : expr.Built) {rhs : Binary64} (hadds : model.Adds name expr rhs)
    (relation : Relation) : (model.withRow name expr relation rhs).WellFormed := by
  have hrows := hadds.constraints_withRow relation
  have hadmits := admits_of_checkExpr hbuilt hadds.expr
  refine { h with rowNames := ?_, rowDistinct := ?_, rowFits := ?_, rows := ?_, rhs := ?_ }
  · rw [hrows]
    exact List.forall_mem_append.mpr ⟨h.rowNames, List.forall_mem_singleton.mpr hadds.valid⟩
  · exact Table.nodup_names _
  · rw [hrows, List.length_append]
    exact hadds.room
  · rw [hrows]
    exact List.forall_mem_append.mpr ⟨h.rows, List.forall_mem_singleton.mpr hadmits⟩
  · rw [hrows]
    exact List.forall_mem_append.mpr ⟨h.rhs, List.forall_mem_singleton.mpr hadds.rhs⟩

theorem WellFormed.of_change (h : model.WellFormed) (hchange : model.Change next) :
    next.WellFormed := by
  cases hchange with
  | none => exact h
  | declared hdeclares => exact h.withVariable hdeclares
  | alwaysOne hdeclares => exact h.withOne hdeclares
  | added built hadds => exact h.withRow built hadds _
  | aimed built haims =>
      refine { h with objective := ?_ }
      intro objective hsome
      rw [← Option.some.inj hsome]
      exact admits_of_checkExpr built haims.expr

/-! ## Every run -/

theorem WellFormed.after (h : model.WellFormed) (call : Call) : (model.after call).WellFormed :=
  h.of_change (model.change_after call)

theorem reachable_run (calls : List Call) : (run calls).Reachable := by
  have hfold (model : Model) (h : model.Reachable) : (calls.foldl after model).Reachable := by
    induction calls generalizing model with
    | nil => exact h
    | cons call calls ih => exact ih (model.after call) (h.after call)
  exact hfold empty .empty

/-- Whatever the calls, the model that they lead to is well formed. -/
theorem Reachable.wellFormed (h : model.Reachable) : model.WellFormed := by
  induction h with
  | empty => exact wellFormed_empty
  | after call _ ih => exact ih.after call

end Model

end LinearProgram
