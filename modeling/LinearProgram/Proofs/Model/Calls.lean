import LinearProgram.Proofs.Model.Expressions
import LinearProgram.Proofs.Model.Tables

/-!
# Calls on a model

A call leaves a model and gives an answer or an error.  What it can do to the model is
said once, by `Change`: nothing, one more variable or constraint at the end of its table,
or the objective set for the first time.  A call that is a single step does nothing when
it fails, since it looks for all that may be wrong before it stores anything.
-/

namespace LinearProgram

namespace Model

/-- The calls that can change a model, with expressions that can be built. -/
inductive Call where
  | declare (name : Name) (bounds : Bounds) (kind : VariableKind)
  | one
  | foldConstant (expr : LinearExpr) (built : expr.Built)
  | addConstraint (name : Name) (expr : LinearExpr) (built : expr.Built) (relation : Relation)
      (rhs : Binary64)
  | setObjective (sense : Sense) (expr : LinearExpr) (built : expr.Built)

/-- What a call gives back when it succeeds. -/
inductive Answer where
  | variable (id : VariableId)
  | constraint (id : ConstraintId)
  | expr (expr : LinearExpr)
  | objectiveSet
deriving DecidableEq

/-- The model that a call leaves, and its answer or the reason why it has failed. -/
def perform (model : Model) : Call → Model × Except ModelError Answer
  | .declare name bounds kind => (model.declare name bounds kind).map id (·.map .variable)
  | .one => model.one.map id (·.map .variable)
  | .foldConstant expr _ => (model.foldConstant expr).map id (·.map .expr)
  | .addConstraint name expr _ relation rhs =>
    (model.addConstraint name expr relation rhs).map id (·.map .constraint)
  | .setObjective sense expr _ =>
    (model.setObjective sense expr).map id (·.map fun _ => .objectiveSet)

/-- The model after a call, which may have failed. -/
def after (model : Model) (call : Call) : Model :=
  (model.perform call).1

def answer (model : Model) (call : Call) : Except ModelError Answer :=
  (model.perform call).2

/-- Whether a call is a single step; folding a constant is several. -/
def Call.isSingle : Call → Bool
  | .foldConstant _ _ => false
  | _ => true

variable {model next : Model} {name : Name} {bounds : Bounds} {kind : VariableKind}
  {expr : LinearExpr} {relation : Relation} {rhs : Binary64} {sense : Sense}

/-! ## Variables -/

/-- Whether a variable can be declared. -/
structure Declares (model : Model) (name : Name) (bounds : Bounds) (kind : VariableKind) :
    Prop where
  valid : name.IsValid
  fresh : name ∉ model.vars.map Variable.name
  bounds : (VariableTable.boundsFor kind bounds).isValid = true
  room : model.vars.length < idCapacity

/-- The model with one more variable behind all others. -/
def withVariable (model : Model) (name : Name) (bounds : Bounds) (kind : VariableKind) : Model :=
  { model with
    columns := model.columns.insert (model.columns.nextEntry name bounds kind) rfl }

theorem Declares.vars_withVariable (h : model.Declares name bounds kind) :
    (model.withVariable name bounds kind).vars = model.vars ++
      [⟨⟨model.vars.length⟩, name, VariableTable.boundsFor kind bounds, kind⟩] :=
  Table.entries_insert rfl h.fresh

theorem checkNext_eq_ok_iff :
    model.columns.checkNext name bounds kind = .ok () ↔ model.Declares name bounds kind :=
  VariableTable.checkNext_eq_ok_iff.trans
    ⟨fun ⟨hname, hfresh, hbounds, hroom⟩ => ⟨hname, hfresh, hbounds, hroom⟩,
      fun h => ⟨h.valid, h.fresh, h.bounds, h.room⟩⟩

/-- A declaration adds a variable and gives its id, or changes nothing. -/
theorem declare_cases (model : Model) (name : Name) (bounds : Bounds) (kind : VariableKind) :
    model.Declares name bounds kind ∧
        model.declare name bounds kind =
          (model.withVariable name bounds kind, .ok ⟨model.vars.length⟩) ∨
      ¬model.Declares name bounds kind ∧
        ∃ error, model.declare name bounds kind = (model, .error error) := by
  rw [← checkNext_eq_ok_iff, declare]
  rcases model.columns.declare_cases name bounds kind with
    ⟨hcheck, hdeclare⟩ | ⟨hcheck, error, hdeclare⟩
  · rw [hdeclare]
    exact .inl ⟨hcheck, rfl⟩
  · rw [hdeclare]
    exact .inr ⟨hcheck, error, rfl⟩

theorem declare_eq_ok_iff {id : VariableId} :
    model.declare name bounds kind = (next, .ok id) ↔
      model.Declares name bounds kind ∧ next = model.withVariable name bounds kind ∧
        id = ⟨model.vars.length⟩ := by
  rcases model.declare_cases name bounds kind with ⟨hdeclares, hdeclare⟩ | ⟨hnot, error, hdeclare⟩
  · rw [hdeclare, Prod.mk.injEq, Except.ok.injEq]
    exact ⟨fun ⟨hnext, hid⟩ => ⟨hdeclares, hnext.symm, hid.symm⟩,
      fun ⟨_, hnext, hid⟩ => ⟨hnext.symm, hid.symm⟩⟩
  · rw [hdeclare]
    exact ⟨fun h => (nomatch (Prod.mk.inj h).2), fun h => absurd h.1 hnot⟩

/-! ## The variable that is always one -/

/-- Whether asking for the variable that is always one declares it. -/
structure DeclaresOne (model : Model) : Prop where
  uncached : model.alwaysOne = none
  fresh : alwaysOneName ∉ model.vars.map Variable.name
  fits : model.vars.length < idCapacity

/-- The model with the variable that is always one declared behind all others. -/
def withOne (model : Model) : Model :=
  { model.withVariable alwaysOneName (.fixed .one) .continuous with
    alwaysOne := some ⟨model.vars.length⟩ }

theorem alwaysOneName_isValid : alwaysOneName.IsValid :=
  (Name.fault?_eq_none_iff _).mp (by decide)

theorem DeclaresOne.declares (h : model.DeclaresOne) :
    model.Declares alwaysOneName (.fixed .one) .continuous where
  valid := alwaysOneName_isValid
  fresh := h.fresh
  bounds := by decide +kernel
  room := h.fits

theorem DeclaresOne.vars_withOne (h : model.DeclaresOne) :
    model.withOne.vars = model.vars ++
      [⟨⟨model.vars.length⟩, alwaysOneName, .fixed .one, .continuous⟩] :=
  h.declares.vars_withVariable

/-- The variable that is always one is the cached one, is declared and cached, or is refused. -/
theorem one_cases (model : Model) :
    (∃ id, model.alwaysOne = some id ∧ model.one = (model, .ok id)) ∨
      model.DeclaresOne ∧ model.one = (model.withOne, .ok ⟨model.vars.length⟩) ∨
      (model.alwaysOne = none ∧ ¬model.DeclaresOne) ∧
        ∃ error, model.one = (model, .error error) := by
  rw [one]
  cases hcached : model.alwaysOne with
  | some id => exact .inl ⟨id, rfl, rfl⟩
  | none =>
      refine .inr ?_
      dsimp only
      rcases model.declare_cases alwaysOneName (.fixed .one) .continuous with
        ⟨hdeclares, hdeclare⟩ | ⟨hnot, error, hdeclare⟩
      · rw [hdeclare]
        exact .inl ⟨⟨hcached, hdeclares.fresh, hdeclares.room⟩, rfl⟩
      · rw [hdeclare]
        exact .inr ⟨⟨rfl, fun h => hnot h.declares⟩, error, rfl⟩

/-- Folding changes a model as asking for the variable that is always one does, if at all. -/
theorem foldConstant_fst (model : Model) (expr : LinearExpr) :
    (model.foldConstant expr).1 = model ∨ (model.foldConstant expr).1 = model.one.1 := by
  rw [foldConstant]
  split
  · exact .inl rfl
  · split
    · next hone => exact .inr (congrArg Prod.fst hone).symm
    · next hone => exact .inr (congrArg Prod.fst hone).symm

/-! ## Constraints and the objective -/

theorem checkExpr_eq_ok_iff (model : Model) (expr : LinearExpr) :
    model.checkExpr expr = .ok () ↔
      (∀ id ∈ expr.vars, id.index < model.vars.length) ∧
        (∀ term ∈ expr.terms, term.2.isFinite = true) ∧ expr.constant.isFinite = true := by
  have hfinite : expr.firstNonFinite? = none ↔
      (∀ term ∈ expr.terms, term.2.isFinite = true) ∧ expr.constant.isFinite = true := by
    simp [LinearExpr.firstNonFinite?]
  have hdeclared : (expr.vars.find? fun id => !model.columns.contains id) = none ↔
      ∀ id ∈ expr.vars, id.index < model.vars.length := by
    simp [Table.contains, vars]
  rw [← hfinite, ← hdeclared, checkExpr]
  cases expr.vars.find? fun id => !model.columns.contains id with
  | some id => simp
  | none => cases expr.firstNonFinite? <;> simp

/-- Whether a constraint can be added. -/
structure Adds (model : Model) (name : Name) (expr : LinearExpr) (rhs : Binary64) : Prop where
  expr : model.checkExpr expr = .ok ()
  rhs : rhs.isFinite = true
  valid : name.IsValid
  fresh : name ∉ model.constraints.map Constraint.name
  room : model.constraints.length < idCapacity

/-- The model with one more constraint behind all others. -/
def withRow (model : Model) (name : Name) (expr : LinearExpr) (relation : Relation)
    (rhs : Binary64) : Model :=
  { model with rows := model.rows.insert (model.rows.nextEntry name expr relation rhs) rfl }

theorem Adds.constraints_withRow (h : model.Adds name expr rhs) (relation : Relation) :
    (model.withRow name expr relation rhs).constraints = model.constraints ++
      [⟨⟨model.constraints.length⟩, name, expr, relation, rhs⟩] :=
  Table.entries_insert rfl h.fresh

theorem checkRow_eq_ok_iff :
    model.checkRow expr rhs = .ok () ↔ model.checkExpr expr = .ok () ∧ rhs.isFinite = true := by
  rw [checkRow]
  cases model.checkExpr expr with
  | error error => simp [bind, Except.bind]
  | ok done =>
      cases rhs.isFinite <;>
        simp [bind, Except.bind, throw, throwThe, MonadExceptOf.throw, pure, Except.pure]

/-- A constraint is added and its id is given, or nothing changes. -/
theorem addConstraint_cases (model : Model) (name : Name) (expr : LinearExpr)
    (relation : Relation) (rhs : Binary64) :
    model.Adds name expr rhs ∧
        model.addConstraint name expr relation rhs =
          (model.withRow name expr relation rhs, .ok ⟨model.constraints.length⟩) ∨
      ¬model.Adds name expr rhs ∧
        ∃ error, model.addConstraint name expr relation rhs = (model, .error error) := by
  rw [addConstraint]
  cases hcheck : model.checkRow expr rhs with
  | error error =>
      refine .inr ⟨fun h => ?_, error, rfl⟩
      exact nomatch hcheck.symm.trans (checkRow_eq_ok_iff.mpr ⟨h.expr, h.rhs⟩)
  | ok done =>
      obtain ⟨hexpr, hrhs⟩ := checkRow_eq_ok_iff.mp hcheck
      dsimp only
      rcases model.rows.add_cases name expr relation rhs with
        ⟨hnext, hadd⟩ | ⟨hnext, error, hadd⟩
      · obtain ⟨hname, hfresh, hroom⟩ := ConstraintTable.checkNext_eq_ok_iff.mp hnext
        rw [hadd]
        exact .inl ⟨⟨hexpr, hrhs, hname, hfresh, hroom⟩, rfl⟩
      · rw [hadd]
        refine .inr ⟨fun h => hnext ?_, error, rfl⟩
        exact ConstraintTable.checkNext_eq_ok_iff.mpr ⟨h.valid, h.fresh, h.room⟩

theorem addConstraint_eq_ok_iff {id : ConstraintId} :
    model.addConstraint name expr relation rhs = (next, .ok id) ↔
      model.Adds name expr rhs ∧ next = model.withRow name expr relation rhs ∧
        id = ⟨model.constraints.length⟩ := by
  rcases model.addConstraint_cases name expr relation rhs with
    ⟨hadds, hadd⟩ | ⟨hnot, error, hadd⟩
  · rw [hadd, Prod.mk.injEq, Except.ok.injEq]
    exact ⟨fun ⟨hnext, hid⟩ => ⟨hadds, hnext.symm, hid.symm⟩,
      fun ⟨_, hnext, hid⟩ => ⟨hnext.symm, hid.symm⟩⟩
  · rw [hadd]
    exact ⟨fun h => (nomatch (Prod.mk.inj h).2), fun h => absurd h.1 hnot⟩

/-- Whether an expression can become the objective. -/
structure Aims (model : Model) (expr : LinearExpr) : Prop where
  unset : model.objective = none
  expr : model.checkExpr expr = .ok ()

theorem checkObjective_eq_ok_iff : model.checkObjective expr = .ok () ↔ model.Aims expr := by
  have haims : model.Aims expr ↔ model.objective = none ∧ model.checkExpr expr = .ok () :=
    ⟨fun h => ⟨h.unset, h.expr⟩, fun h => ⟨h.1, h.2⟩⟩
  rw [haims, checkObjective]
  cases model.objective with
  | some objective => simp [bind, Except.bind, throw, throwThe, MonadExceptOf.throw]
  | none => simp

/-- The objective is set, or nothing changes. -/
theorem setObjective_cases (model : Model) (sense : Sense) (expr : LinearExpr) :
    model.Aims expr ∧
        model.setObjective sense expr =
          ({ model with objective := some ⟨sense, expr⟩ }, .ok ()) ∨
      ¬model.Aims expr ∧ ∃ error, model.setObjective sense expr = (model, .error error) := by
  rw [← checkObjective_eq_ok_iff, setObjective]
  cases model.checkObjective expr with
  | error error => exact .inr ⟨nofun, error, rfl⟩
  | ok done => exact .inl ⟨rfl, rfl⟩

theorem setObjective_eq_ok_iff :
    model.setObjective sense expr = (next, .ok ()) ↔
      model.Aims expr ∧ next = { model with objective := some ⟨sense, expr⟩ } := by
  rcases model.setObjective_cases sense expr with ⟨haims, hset⟩ | ⟨hnot, error, hset⟩
  · rw [hset, Prod.mk.injEq]
    exact ⟨fun ⟨hnext, _⟩ => ⟨haims, hnext.symm⟩, fun ⟨_, hnext⟩ => ⟨hnext.symm, rfl⟩⟩
  · rw [hset]
    exact ⟨fun h => (nomatch (Prod.mk.inj h).2), fun h => absurd h.1 hnot⟩

/-! ## What calls do -/

/-- What a call can do to a model. -/
inductive Change (model : Model) : Model → Prop where
  | none : Change model model
  | declared {name : Name} {bounds : Bounds} {kind : VariableKind}
      (h : model.Declares name bounds kind) : Change model (model.withVariable name bounds kind)
  | alwaysOne (h : model.DeclaresOne) : Change model model.withOne
  | added {name : Name} {expr : LinearExpr} {relation : Relation} {rhs : Binary64}
      (built : expr.Built) (h : model.Adds name expr rhs) :
      Change model (model.withRow name expr relation rhs)
  | aimed {sense : Sense} {expr : LinearExpr} (built : expr.Built) (h : model.Aims expr) :
      Change model { model with objective := some ⟨sense, expr⟩ }

/-- A step that changes a model in one way, or fails and leaves it as it was. -/
structure Atomic {α : Type} (model : Model) (outcome : Model × Except ModelError α) : Prop where
  change : model.Change outcome.1
  failed : ∀ error, outcome.2 = .error error → outcome.1 = model

section Atomic

variable {α : Type} {outcome : Model × Except ModelError α}

theorem Change.atomic (h : model.Change next) (value : α) : model.Atomic (next, .ok value) :=
  ⟨h, nofun⟩

theorem atomic_error (model : Model) (error : ModelError) :
    model.Atomic (model, (.error error : Except ModelError α)) :=
  ⟨.none, fun _ _ => rfl⟩

theorem Atomic.map (h : model.Atomic outcome) (encode : α → Answer) :
    model.Atomic (outcome.map id (·.map encode)) := by
  obtain ⟨next, error | value⟩ := outcome
  · exact ⟨h.change, fun _ _ => h.failed error rfl⟩
  · exact h.change.atomic (encode value)

end Atomic

theorem atomic_declare (model : Model) (name : Name) (bounds : Bounds) (kind : VariableKind) :
    model.Atomic (model.declare name bounds kind) := by
  rcases model.declare_cases name bounds kind with ⟨h, hcall⟩ | ⟨-, error, hcall⟩
  · rw [hcall]
    exact (Change.declared h).atomic _
  · rw [hcall]
    exact atomic_error model error

theorem atomic_one (model : Model) : model.Atomic model.one := by
  rcases model.one_cases with ⟨id, -, hcall⟩ | ⟨h, hcall⟩ | ⟨-, error, hcall⟩
  · rw [hcall]
    exact Change.none.atomic id
  · rw [hcall]
    exact (Change.alwaysOne h).atomic _
  · rw [hcall]
    exact atomic_error model error

theorem atomic_addConstraint (model : Model) (name : Name) (built : expr.Built)
    (relation : Relation) (rhs : Binary64) :
    model.Atomic (model.addConstraint name expr relation rhs) := by
  rcases model.addConstraint_cases name expr relation rhs with ⟨h, hcall⟩ | ⟨-, error, hcall⟩
  · rw [hcall]
    exact (Change.added built h).atomic _
  · rw [hcall]
    exact atomic_error model error

theorem atomic_setObjective (model : Model) (sense : Sense) (built : expr.Built) :
    model.Atomic (model.setObjective sense expr) := by
  rcases model.setObjective_cases sense expr with ⟨h, hcall⟩ | ⟨-, error, hcall⟩
  · rw [hcall]
    exact (Change.aimed built h).atomic _
  · rw [hcall]
    exact atomic_error model error

theorem atomic_perform (model : Model) {call : Call} (hsingle : call.isSingle = true) :
    model.Atomic (model.perform call) := by
  cases call with
  | declare name bounds kind => exact (model.atomic_declare name bounds kind).map .variable
  | one => exact model.atomic_one.map .variable
  | foldConstant expr built => exact absurd hsingle Bool.false_ne_true
  | addConstraint name expr built relation rhs =>
      exact (model.atomic_addConstraint name built relation rhs).map .constraint
  | setObjective sense expr built =>
      exact (model.atomic_setObjective sense built).map fun _ => .objectiveSet

/-- Every call changes a model in one way, also the one that takes several steps. -/
theorem change_after (model : Model) (call : Call) : model.Change (model.after call) := by
  cases hsingle : call.isSingle with
  | true => exact (model.atomic_perform hsingle).change
  | false =>
      cases call with
      | foldConstant expr built =>
          change model.Change (model.foldConstant expr).1
          rcases model.foldConstant_fst expr with hsame | hone
          · rw [hsame]
            exact .none
          · rw [hone]
            exact model.atomic_one.change
      | declare | one | addConstraint | setObjective => cases hsingle

end Model

end LinearProgram
