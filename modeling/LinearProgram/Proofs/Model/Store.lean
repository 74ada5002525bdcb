import LinearProgram.Proofs.Model.Reachable

/-!
# What calls keep

A model only grows.  Whatever the calls, an entry stays as it is and at the place of its
id, and the objective and the variable that is always one stay once they are there.  A
call that fails changes nothing, except that folding a constant may have declared the
variable that is always one before it fails.  Names lead to the ids of the entries that
have them, and no other name leads anywhere.  The main statement is `run_store`.
-/

namespace LinearProgram

namespace Model

/-- Everything that a model holds is held at the same places in a later one. -/
structure Extends (model later : Model) : Prop where
  vars : model.vars <+: later.vars
  constraints : model.constraints <+: later.constraints
  objective : ∀ objective, model.objective = some objective → later.objective = some objective
  alwaysOne : ∀ id, model.alwaysOne = some id → later.alwaysOne = some id

theorem Extends.refl (model : Model) : model.Extends model :=
  ⟨List.prefix_refl _, List.prefix_refl _, fun _ h => h, fun _ h => h⟩

theorem Extends.trans {model later last : Model} (h : model.Extends later)
    (h' : later.Extends last) : model.Extends last where
  vars := h.vars.trans h'.vars
  constraints := h.constraints.trans h'.constraints
  objective objective hsome := h'.objective objective (h.objective objective hsome)
  alwaysOne id hsome := h'.alwaysOne id (h.alwaysOne id hsome)

variable {model next : Model}

/-! ## Single calls -/

theorem Change.extends (h : model.Change next) : model.Extends next := by
  cases h with
  | none => exact .refl model
  | declared hdeclares =>
      exact { Extends.refl model with vars := Table.entries_prefix_insert rfl }
  | alwaysOne hdeclares =>
      refine { Extends.refl model with vars := Table.entries_prefix_insert rfl, alwaysOne := ?_ }
      exact fun id hsome => nomatch hdeclares.uncached.symm.trans hsome
  | added built hadds =>
      exact { Extends.refl model with constraints := Table.entries_prefix_insert rfl }
  | aimed built haims =>
      refine { Extends.refl model with objective := ?_ }
      exact fun objective hsome => nomatch haims.unset.symm.trans hsome

/-- The cached id refers to a continuous variable of the reserved name that is fixed to one. -/
def CachesOne (model : Model) : Prop :=
  ∀ id, model.alwaysOne = some id →
    model.columns.get? id = some ⟨id, alwaysOneName, .fixed .one, .continuous⟩

theorem DeclaresOne.get?_withOne (h : model.DeclaresOne) :
    model.withOne.columns.get? ⟨model.vars.length⟩ =
      some ⟨⟨model.vars.length⟩, alwaysOneName, .fixed .one, .continuous⟩ := by
  change model.withOne.vars[model.vars.length]? = _
  rw [h.vars_withOne]
  exact List.getElem?_concat_length

theorem CachesOne.of_change (h : model.CachesOne) (hchange : model.Change next) :
    next.CachesOne := by
  intro id hid
  have hkept (hcached : model.alwaysOne = some id) : next.columns.get? id = _ :=
    Table.get?_of_isPrefix hchange.extends.vars (h id hcached)
  cases hchange with
  | none => exact hkept hid
  | declared hdeclares => exact hkept hid
  | alwaysOne hdeclares =>
      rw [← Option.some.inj hid]
      exact hdeclares.get?_withOne
  | added built hadds => exact hkept hid
  | aimed built haims => exact hkept hid

/-! ## Every run -/

theorem Reachable.cachesOne (h : model.Reachable) : model.CachesOne := by
  induction h with
  | empty => exact fun id hid => nomatch hid
  | after call _ ih => exact ih.of_change (change_after _ call)

theorem extends_foldl_after (model : Model) (calls : List Call) :
    model.Extends (calls.foldl after model) := by
  induction calls generalizing model with
  | nil => exact .refl model
  | cons call calls ih => exact (change_after model call).extends.trans (ih (model.after call))

/-- Entries are found by the ids and the names that they have, and by no others. -/
structure Indexed (model : Model) : Prop where
  ids : ∀ (index : Nat) (entry : Variable), model.vars[index]? = some entry → entry.id = ⟨index⟩
  rowIds : ∀ (index : Nat) (entry : Constraint), model.constraints[index]? = some entry →
    entry.id = ⟨index⟩
  lookup : ∀ name id, model.columns.lookup name = .ok id ↔
    ∃ entry, model.columns.get? id = some entry ∧ entry.name = name
  unknown : ∀ name, (∀ entry ∈ model.vars, entry.name ≠ name) →
    model.columns.lookup name = .error (.unknownVariable name.text)
  rowLookup : ∀ name id, model.rows.lookup? name = some id ↔
    ∃ entry, model.rows.get? id = some entry ∧ entry.name = name
  alwaysOne : model.CachesOne

/-- What further calls do to a model. -/
structure Lasting (model : Model) : Prop where
  /-- The id that is given out for a new variable is its place. -/
  declared : ∀ name bounds kind id,
    model.answer (.declare name bounds kind) = .ok (.variable id) →
      id = ⟨model.vars.length⟩ ∧ (model.after (.declare name bounds kind)).vars =
        model.vars ++ [⟨id, name, VariableTable.boundsFor kind bounds, kind⟩]
  /-- The id that is given out for a new constraint is its place. -/
  added : ∀ name expr built relation rhs id,
    model.answer (.addConstraint name expr built relation rhs) = .ok (.constraint id) →
      id = ⟨model.constraints.length⟩ ∧
        (model.after (.addConstraint name expr built relation rhs)).constraints =
          model.constraints ++ [⟨id, name, expr, relation, rhs⟩]
  /-- Nothing that is stored is ever changed or removed. -/
  kept : ∀ calls : List Call, model.Extends (calls.foldl after model)
  failed : ∀ call error, call.isSingle = true → model.answer call = .error error →
    model.after call = model
  cached : ∀ id, model.answer .one = .ok (.variable id) → (model.after .one).alwaysOne = some id
  /-- The variable that is always one is asked for again and again with the same answer. -/
  again : ∀ id, model.alwaysOne = some id → ∀ calls : List Call,
    (calls.foldl after model).answer .one = .ok (.variable id) ∧
      (calls.foldl after model).after .one = calls.foldl after model

theorem indexed (model : Model) (hone : model.CachesOne) : model.Indexed where
  ids _ _ hentry := model.columns.idOf_eq VariableId.index_injective hentry rfl
  rowIds _ _ hentry := model.rows.idOf_eq ConstraintId.index_injective hentry rfl
  lookup _ _ := VariableTable.lookup_eq_ok_iff
  unknown name hnone := by
    refine VariableTable.lookup_eq_error fun hmem => ?_
    obtain ⟨entry, hentry, hname⟩ := List.mem_map.mp hmem
    exact hnone entry hentry hname
  rowLookup _ _ := Table.lookup?_eq_some_iff ConstraintId.index_injective
  alwaysOne := hone

theorem one_of_alwaysOne {id : VariableId} (hcached : model.alwaysOne = some id) :
    model.one = (model, .ok id) := by
  rw [one, hcached]

theorem lasting (model : Model) : model.Lasting := by
  constructor
  case declared =>
    intro name bounds kind id hanswer
    rcases model.declare_cases name bounds kind with ⟨hdeclares, hcall⟩ | ⟨-, error, hcall⟩
    · rw [answer, perform, hcall] at hanswer
      obtain rfl := Answer.variable.inj (Except.ok.inj hanswer)
      rw [after, perform, hcall]
      exact ⟨rfl, hdeclares.vars_withVariable⟩
    · rw [answer, perform, hcall] at hanswer
      cases hanswer
  case added =>
    intro name expr built relation rhs id hanswer
    rcases model.addConstraint_cases name expr relation rhs with
      ⟨hadds, hcall⟩ | ⟨-, error, hcall⟩
    · rw [answer, perform, hcall] at hanswer
      obtain rfl := Answer.constraint.inj (Except.ok.inj hanswer)
      rw [after, perform, hcall]
      exact ⟨rfl, hadds.constraints_withRow relation⟩
    · rw [answer, perform, hcall] at hanswer
      cases hanswer
  case kept => exact extends_foldl_after model
  case failed => exact fun call error hsingle => (model.atomic_perform hsingle).failed error
  case cached =>
    intro id hanswer
    rcases model.one_cases with ⟨id', hcached, hcall⟩ | ⟨-, hcall⟩ | ⟨-, error, hcall⟩
    · rw [answer, perform, hcall] at hanswer
      rw [after, perform, hcall, ← Answer.variable.inj (Except.ok.inj hanswer)]
      exact hcached
    · rw [answer, perform, hcall] at hanswer
      rw [after, perform, hcall, ← Answer.variable.inj (Except.ok.inj hanswer)]
      rfl
    · rw [answer, perform, hcall] at hanswer
      cases hanswer
  case again =>
    intro id hcached calls
    have hok := one_of_alwaysOne ((extends_foldl_after model calls).alwaysOne id hcached)
    rw [answer, after, perform, hok]
    exact ⟨rfl, rfl⟩

/--
The store of a model after any calls, some of which may have failed: it is well formed,
its entries are found by their ids and names, whatever it holds lasts through all further
calls, and a single step that fails changes nothing.
-/
theorem run_store (calls : List Call) :
    (run calls).WellFormed ∧ (run calls).Indexed ∧ (run calls).Lasting := by
  have hreachable := reachable_run calls
  exact ⟨hreachable.wellFormed, indexed _ hreachable.cachesOne, lasting _⟩

section Pantry

open LinearExpr

/-- Calls of every kind, among them many that fail. -/
def pantryCalls : List Call :=
  [.declare (.flat "2x") .nonNegative .continuous,
    .one,
    .addConstraint (.flat "Iron") (var ⟨1⟩) (.var _) .ge .one,
    .declare (.flat "Rice") .nonNegative .continuous,
    .declare (.flat "Rice") .free .integer,
    .addConstraint (.flat "Iron") (var ⟨1⟩) (.var _) .ge .one,
    .addConstraint (.flat "Iron") (var ⟨1⟩) (.var _) .le .one,
    .declare alwaysOneName .nonNegative .binary,
    .setObjective .minimize (var ⟨2⟩) (.var _),
    .setObjective .maximize (var ⟨1⟩) (.var _),
    .setObjective .minimize (var ⟨1⟩) (.var _),
    .foldConstant (ofConstant (.infinity false)) (.ofConstant _),
    .declare (.flat "Fries") .unitInterval .binary]

theorem run_store_pantryCalls :
    (run pantryCalls).WellFormed ∧ (run pantryCalls).Indexed ∧ (run pantryCalls).Lasting ∧
      (run pantryCalls).vars.map Variable.name = [alwaysOneName, .flat "Rice", .flat "Fries"] ∧
      (run pantryCalls).columns.lookup (.flat "Fries") = .ok ⟨2⟩ ∧
      (run pantryCalls).constraints.map Constraint.name = [.flat "Iron"] ∧
      (run pantryCalls).rows.lookup? (.flat "Iron") = some ⟨0⟩ ∧
      (run pantryCalls).objective = some ⟨.maximize, var ⟨1⟩⟩ ∧
      (run pantryCalls).answer .one = .ok (.variable ⟨0⟩) ∧
      (run pantryCalls).after (.declare (.flat "Fries") .free .integer) = run pantryCalls := by
  obtain ⟨hwellFormed, hindexed, hlasting⟩ := run_store pantryCalls
  have hvars : (run pantryCalls).vars.map Variable.name =
      [alwaysOneName, .flat "Rice", .flat "Fries"] := by decide +kernel
  have hrows : (run pantryCalls).constraints.map Constraint.name = [.flat "Iron"] := by
    decide +kernel
  have hplace : ((run pantryCalls).columns.get? ⟨2⟩).map Variable.name = some (.flat "Fries") := by
    decide +kernel
  have hrowPlace : ((run pantryCalls).rows.get? ⟨0⟩).map Constraint.name =
      some (.flat "Iron") := by
    decide +kernel
  have hone : (run pantryCalls).alwaysOne = some ⟨0⟩ := by decide +kernel
  have hobjective : (run pantryCalls).objective = some ⟨.maximize, var ⟨1⟩⟩ := by decide +kernel
  obtain ⟨hagain, -⟩ := hlasting.again _ hone []
  rw [List.foldl_nil] at hagain
  refine ⟨hwellFormed, hindexed, hlasting, hvars, ?_, hrows, ?_, hobjective, hagain, ?_⟩
  · exact (hindexed.lookup _ _).mpr (Option.map_eq_some_iff.mp hplace)
  · exact (hindexed.rowLookup _ _).mpr (Option.map_eq_some_iff.mp hrowPlace)
  · rcases (run pantryCalls).declare_cases (.flat "Fries") .free .integer with
      ⟨hdeclares, -⟩ | ⟨-, error, hcall⟩
    · refine absurd ?_ hdeclares.fresh
      rw [hvars]
      decide
    · refine hlasting.failed (.declare (.flat "Fries") .free .integer) error rfl ?_
      rw [answer, perform, hcall]
      rfl

end Pantry

end Model

end LinearProgram
