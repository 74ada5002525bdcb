import LinearProgram.Proofs.Binary64.Arithmetic
import LinearProgram.Proofs.Document.Summation
import LinearProgram.Proofs.Model.Store

/-!
# Folding constants

Folding moves the constant of an expression onto the variable that is always one and
leaves all other terms where they are.  It asks for that variable before it looks whether
the constant is finite, and asking may declare the variable.  So a failure can be seen in
the model, but only when the constant is not finite and the variable has been new; all
other failures leave no trace.  The main statements are `foldConstant_exact` and
`foldConstant_failed_iff`.
-/

namespace LinearProgram

namespace LinearExpr

/-- What is left of an expression once its constant stands with a variable. -/
structure Folded (expr : LinearExpr) (one : VariableId) (folded : LinearExpr) : Prop where
  constant : folded.constant = .zero
  /-- The terms of other variables are the same and stand in the same order. -/
  others : folded.terms.filter (fun term => term.1 ≠ one) =
    expr.terms.filter fun term => term.1 ≠ one
  /-- A variable that has had no term gets one at the end. -/
  appended : expr.coefficient? one = none → folded.terms = expr.terms ++ [(one, expr.constant)]
  /-- A variable that has had a term keeps it in its place, unless it cancels. -/
  added : ∀ coefficient, expr.coefficient? one = some coefficient → ∃ before behind,
    expr.terms = before ++ (one, coefficient) :: behind ∧
      folded.terms = before ++ (if (coefficient + expr.constant).isZero then []
        else [(one, coefficient + expr.constant)]) ++ behind ∧
      one ∉ (before ++ behind).map Prod.fst

/-! ## Terms -/

variable {expr : LinearExpr} {one : VariableId} {coefficient : Binary64}
  {terms before behind : List (VariableId × Binary64)}

theorem addTerm_append_cons (h : one ∉ before.map Prod.fst) (value : Binary64) :
    addTerm (before ++ (one, coefficient) :: behind) (one, value) =
      before ++ (one, coefficient + value) :: behind := by
  induction before with
  | nil => rw [List.nil_append, addTerm, if_pos rfl, List.nil_append]
  | cons first before ih =>
      obtain ⟨other, sum⟩ := first
      rw [List.map_cons, List.mem_cons, not_or] at h
      rw [List.cons_append, addTerm, if_neg (Ne.symm h.1), ih h.2, List.cons_append]

theorem dropZeros_eq_self (h : ∀ term ∈ terms, term.2.isZero = false) :
    dropZeros terms = terms := by
  apply List.filter_eq_self.mpr
  intro term hterm
  rw [h term hterm, Bool.not_false]

/-- A variable with a coefficient has one term, which other variables stand around. -/
theorem Canonical.exists_eq_append (h : expr.Canonical)
    (hcoefficient : expr.coefficient? one = some coefficient) :
    ∃ before behind, expr.terms = before ++ (one, coefficient) :: behind ∧
      one ∉ before.map Prod.fst ∧ one ∉ behind.map Prod.fst := by
  obtain ⟨⟨id, value⟩, hfound, rfl⟩ := Option.map_eq_some_iff.mp hcoefficient
  obtain ⟨hid, before, behind, hterms, -⟩ := List.find?_eq_some_iff_append.mp hfound
  obtain rfl : id = one := of_decide_eq_true hid
  have hdistinct := h.distinct
  rw [vars, hterms, List.map_append, List.map_cons] at hdistinct
  obtain ⟨-, hlater, hapart⟩ := List.nodup_append.mp hdistinct
  refine ⟨before, behind, hterms, ?_, (List.nodup_cons.mp hlater).1⟩
  intro hmem
  exact hapart id hmem id List.mem_cons_self rfl

theorem not_mem_of_coefficient?_eq_none (h : expr.coefficient? one = none) :
    one ∉ expr.terms.map Prod.fst := by
  rintro hmem
  obtain ⟨term, hterm, rfl⟩ := List.mem_map.mp hmem
  have hnone := List.find?_eq_none.mp (Option.map_eq_none_iff.mp h) term hterm
  exact hnone (decide_eq_true rfl)

/-- A value on a variable without a term is a new term at the end. -/
theorem Canonical.terms_appended (h : expr.Canonical) (hnone : expr.coefficient? one = none)
    {value : Binary64} (hvalue : value.isZero = false) :
    dropZeros (addTerm expr.terms (one, value)) = expr.terms ++ [(one, value)] := by
  rw [addTerm_of_not_mem (not_mem_of_coefficient?_eq_none hnone)]
  apply dropZeros_eq_self
  exact List.forall_mem_append.mpr ⟨h.nonzero, List.forall_mem_singleton.mpr hvalue⟩

/-- A value on a variable with a term is added to this term, which is dropped if it cancels. -/
theorem Canonical.exists_terms_added (h : expr.Canonical)
    (hcoefficient : expr.coefficient? one = some coefficient) (value : Binary64) :
    ∃ before behind, expr.terms = before ++ (one, coefficient) :: behind ∧
      dropZeros (addTerm expr.terms (one, value)) =
        before ++ (if (coefficient + value).isZero then [] else [(one, coefficient + value)]) ++
          behind ∧
      one ∉ (before ++ behind).map Prod.fst := by
  obtain ⟨before, behind, hsplit, hbefore, hbehind⟩ := h.exists_eq_append hcoefficient
  have hkept : (∀ term ∈ before, term.2.isZero = false) ∧
      ∀ term ∈ behind, term.2.isZero = false := by
    have hnonzero := h.nonzero
    rw [hsplit, List.forall_mem_append, List.forall_mem_cons] at hnonzero
    exact ⟨hnonzero.1, hnonzero.2.2⟩
  refine ⟨before, behind, hsplit, ?_, ?_⟩
  · rw [hsplit, addTerm_append_cons hbefore, dropZeros, List.filter_append, List.filter_cons,
      ← dropZeros, ← dropZeros, dropZeros_eq_self hkept.1, dropZeros_eq_self hkept.2]
    cases (coefficient + value).isZero <;> simp
  · rw [List.map_append, List.mem_append, not_or]
    exact ⟨hbefore, hbehind⟩

/-- Adding the constant to the term of a variable and its negative to the constant folds it. -/
theorem Canonical.folded_add (h : expr.Canonical) (hzero : expr.constant.isZero = false)
    (hfinite : expr.constant.isFinite = true) (one : VariableId) :
    expr.Folded one (expr.add ⟨[(one, expr.constant)], -expr.constant⟩) := by
  constructor
  case constant => exact Binary64.add_neg_self hfinite
  case others =>
    change (dropZeros (addTerm expr.terms (one, expr.constant))).filter _ = _
    cases hcoefficient : expr.coefficient? one with
    | none =>
        rw [h.terms_appended hcoefficient hzero, List.filter_append]
        simp
    | some coefficient =>
        obtain ⟨before, behind, hsplit, hadded, -⟩ :=
          h.exists_terms_added hcoefficient expr.constant
        rw [hadded, hsplit]
        cases (coefficient + expr.constant).isZero <;> simp
  case appended => exact fun hnone => h.terms_appended hnone hzero
  case added => exact fun _ hcoefficient => h.exists_terms_added hcoefficient expr.constant

end LinearExpr

namespace Model

variable {model next : Model} {expr : LinearExpr}

/-! ## The variable that is always one -/

theorem DeclaresOne.one_eq (h : model.DeclaresOne) :
    model.one = (model.withOne, .ok ⟨model.vars.length⟩) := by
  rcases model.one_cases with ⟨id, hcached, -⟩ | ⟨-, hone⟩ | ⟨⟨-, hnot⟩, -⟩
  · exact nomatch hcached.symm.trans h.uncached
  · exact hone
  · exact absurd h hnot

/-- The variable that is always one is the cached one, or it is declared now. -/
theorem one_eq_ok_iff {id : VariableId} :
    model.one = (next, .ok id) ↔ model.alwaysOne = some id ∧ next = model ∨
      model.DeclaresOne ∧ next = model.withOne ∧ id = ⟨model.vars.length⟩ := by
  constructor
  · intro hok
    rcases model.one_cases with ⟨id', hcached, hone⟩ | ⟨hdeclares, hone⟩ | ⟨-, error, hone⟩
    · obtain ⟨hnext, hid⟩ := Prod.mk.inj (hone.symm.trans hok)
      exact .inl ⟨Except.ok.inj hid ▸ hcached, hnext.symm⟩
    · obtain ⟨hnext, hid⟩ := Prod.mk.inj (hone.symm.trans hok)
      exact .inr ⟨hdeclares, hnext.symm, (Except.ok.inj hid).symm⟩
    · exact nomatch (Prod.mk.inj (hone.symm.trans hok)).2
  · rintro (⟨hcached, rfl⟩ | ⟨hdeclares, rfl, rfl⟩)
    · exact one_of_alwaysOne hcached
    · exact hdeclares.one_eq

/-- A refusal of the variable that is always one leaves no trace. -/
theorem eq_of_one_eq_error {error : ModelError} (hone : model.one = (next, .error error)) :
    next = model ∧ ¬model.DeclaresOne := by
  rcases model.one_cases with ⟨id, hcached, hcall⟩ | ⟨hdeclares, hcall⟩ | ⟨⟨-, hnot⟩, _, hcall⟩
  · exact nomatch (Prod.mk.inj (hcall.symm.trans hone)).2
  · exact nomatch (Prod.mk.inj (hcall.symm.trans hone)).2
  · exact ⟨(Prod.mk.inj (hcall.symm.trans hone)).1.symm, hnot⟩

/-! ## Folding step by step -/

theorem foldConstant_of_isZero (h : expr.constant.isZero = true) :
    model.foldConstant expr = (model, .ok expr) := by
  rw [foldConstant, if_pos h]

theorem foldConstant_of_one_eq_error (hzero : expr.constant.isZero = false) {error : ModelError}
    (hone : model.one = (next, .error error)) :
    model.foldConstant expr = (next, .error error) := by
  rw [foldConstant, hzero, if_neg Bool.false_ne_true, hone]

/-- The constant is looked at only when there is a variable to move it to. -/
theorem foldConstant_of_one_eq_ok (hzero : expr.constant.isZero = false) {one : VariableId}
    (hone : model.one = (next, .ok one)) :
    model.foldConstant expr = (next,
      if expr.constant.isFinite then .ok (expr.add ⟨[(one, expr.constant)], -expr.constant⟩)
      else .error (.nonFinite expr.constant)) := by
  rw [foldConstant, hzero, if_neg Bool.false_ne_true, hone]
  dsimp only
  rw [LinearExpr.term?, hzero, if_neg Bool.false_ne_true]
  cases hfinite : expr.constant.isFinite with
  | false => rfl
  | true =>
      -- What is added is a sum itself: the new term and the negative of the constant.
      have hnegative : Binary64.zero + -expr.constant = -expr.constant :=
        Binary64.add_eq_right rfl (by rw [Binary64.isZero_neg, hzero])
      have hshift : (LinearExpr.mk [(one, expr.constant)] .zero).add
          (.ofConstant (-expr.constant)) = ⟨[(one, expr.constant)], -expr.constant⟩ := by
        rw [LinearExpr.add, LinearExpr.ofConstant, List.foldl_nil, hnegative,
          LinearExpr.dropZeros_eq_self (List.forall_mem_singleton.mpr hzero)]
      rw [← hshift]
      rfl

/-- What folding can come to, by what is found out on the way. -/
inductive Folds (model : Model) (expr : LinearExpr) :
    Model → Except ModelError LinearExpr → Prop where
  | zero (hzero : expr.constant.isZero = true) : Folds model expr model (.ok expr)
  | unavailable {next : Model} {error : ModelError} (hone : model.one = (next, .error error)) :
      Folds model expr next (.error error)
  | infinite {next : Model} {one : VariableId} (hfinite : expr.constant.isFinite = false)
      (hone : model.one = (next, .ok one)) :
      Folds model expr next (.error (.nonFinite expr.constant))
  | moved {next : Model} {one : VariableId} (hzero : expr.constant.isZero = false)
      (hfinite : expr.constant.isFinite = true) (hone : model.one = (next, .ok one)) :
      Folds model expr next (.ok (expr.add ⟨[(one, expr.constant)], -expr.constant⟩))

theorem folds_foldConstant (model : Model) (expr : LinearExpr) :
    Folds model expr (model.foldConstant expr).1 (model.foldConstant expr).2 := by
  by_cases hzero : expr.constant.isZero = true
  · rw [foldConstant_of_isZero hzero]
    exact .zero hzero
  · have hnonzero := Bool.eq_false_iff.mpr hzero
    obtain ⟨next, outcome, hone⟩ : ∃ next outcome, model.one = (next, outcome) := ⟨_, _, rfl⟩
    cases outcome with
    | error error =>
        rw [foldConstant_of_one_eq_error hnonzero hone]
        exact .unavailable hone
    | ok one =>
        rw [foldConstant_of_one_eq_ok hnonzero hone]
        by_cases hfinite : expr.constant.isFinite = true
        · rw [if_pos hfinite]
          exact .moved hnonzero hfinite hone
        · rw [if_neg hfinite]
          exact .infinite (Bool.eq_false_iff.mpr hfinite) hone

theorem folds_of_eq {outcome : Except ModelError LinearExpr}
    (h : model.foldConstant expr = (next, outcome)) : Folds model expr next outcome := by
  have hfolds := folds_foldConstant model expr
  rw [h] at hfolds
  exact hfolds

/-! ## Failures -/

/-- Neither what is stored nor the answer to any later call tells two models apart. -/
structure Indistinguishable (model other : Model) : Prop where
  vars : other.vars = model.vars
  constraints : other.constraints = model.constraints
  objective : other.objective = model.objective
  answers : ∀ (calls : List Call) (call : Call),
    (calls.foldl after other).answer call = (calls.foldl after model).answer call

theorem Indistinguishable.refl (model : Model) : model.Indistinguishable model :=
  ⟨rfl, rfl, rfl, fun _ _ => rfl⟩

/-- With one more variable, a model is no longer the same. -/
theorem DeclaresOne.not_indistinguishable (hdeclares : model.DeclaresOne) :
    ¬model.Indistinguishable model.withOne := by
  intro h
  have hlength := congrArg List.length h.vars
  rw [hdeclares.vars_withOne, List.length_append, List.length_singleton] at hlength
  omega

/-- A failure leaves the model as it was, or with the variable that is always one. -/
theorem foldConstant_failed_cases {error : ModelError}
    (hfailed : model.foldConstant expr = (next, .error error)) :
    (expr.constant.isFinite = true ∨ ¬model.DeclaresOne) ∧ next = model ∨
      expr.constant.isFinite = false ∧ model.DeclaresOne ∧ next = model.withOne := by
  cases folds_of_eq hfailed with
  | unavailable hone =>
      obtain ⟨hsame, hnot⟩ := eq_of_one_eq_error hone
      exact .inl ⟨.inr hnot, hsame⟩
  | infinite hfinite hone =>
      rcases one_eq_ok_iff.mp hone with ⟨hcached, hsame⟩ | ⟨hdeclares, hnew, -⟩
      · have hnot : ¬model.DeclaresOne := fun h => nomatch hcached.symm.trans h.uncached
        exact .inl ⟨.inr hnot, hsame⟩
      · exact .inr ⟨hfinite, hdeclares, hnew⟩

/--
What a failure to fold a constant leaves behind.  It goes unnoticed exactly when the
constant is finite or the variable that is always one is not declared by asking for it.
Otherwise the constant is refused after this variable has been declared, and it stays.
-/
theorem foldConstant_failed_iff {error : ModelError}
    (hfailed : model.foldConstant expr = (next, .error error)) :
    (model.Indistinguishable next ↔ expr.constant.isFinite = true ∨ ¬model.DeclaresOne) ∧
      (expr.constant.isFinite = true ∨ ¬model.DeclaresOne → next = model) ∧
      (¬(expr.constant.isFinite = true ∨ ¬model.DeclaresOne) → next = model.withOne ∧
        next.vars = model.vars ++
          [⟨⟨model.vars.length⟩, alwaysOneName, .fixed .one, .continuous⟩]) := by
  rcases foldConstant_failed_cases hfailed with ⟨hcause, rfl⟩ | ⟨hfinite, hdeclares, rfl⟩
  · exact ⟨⟨fun _ => hcause, fun _ => .refl _⟩, fun _ => rfl, fun hnot => absurd hcause hnot⟩
  · have hnot : ¬(expr.constant.isFinite = true ∨ ¬model.DeclaresOne) := by
      rintro (hother | hnone)
      · exact nomatch hfinite.symm.trans hother
      · exact hnone hdeclares
    refine ⟨⟨fun hsame => ?_, fun hcause => absurd hcause hnot⟩, fun hcause => absurd hcause hnot,
      fun _ => ⟨rfl, hdeclares.vars_withOne⟩⟩
    exact absurd hsame hdeclares.not_indistinguishable

/-- An infinite constant is refused, but its failure takes a name that has been free before. -/
theorem foldConstant_failed_iff_infinite :
    ∃ (expr : LinearExpr) (next : Model) (error : ModelError), empty.Reachable ∧ expr.Built ∧
      empty.foldConstant expr = (next, .error error) ∧ ¬empty.Indistinguishable next ∧
      (∃ id, empty.answer (.declare alwaysOneName .nonNegative .integer) = .ok (.variable id)) ∧
      next.answer (.declare alwaysOneName .nonNegative .integer) =
        .error (.duplicateName alwaysOneName) := by
  have hdeclares : empty.DeclaresOne := ⟨rfl, List.not_mem_nil, by decide⟩
  have hfailed : empty.foldConstant (.ofConstant (.infinity false)) =
      (empty.withOne, .error (.nonFinite (.infinity false))) :=
    foldConstant_of_one_eq_ok rfl hdeclares.one_eq
  refine ⟨_, _, _, .empty, .ofConstant _, hfailed, ?_, ⟨⟨0⟩, by rfl⟩, by rfl⟩
  rw [(foldConstant_failed_iff hfailed).1]
  rintro (hfinite | hnot)
  · exact nomatch hfinite
  · exact hnot hdeclares

/-! ## Successes -/

theorem Reachable.get?_alwaysOne (h : model.Reachable) {one : VariableId}
    (hone : model.one = (next, .ok one)) : next.alwaysOne = some one ∧
      next.columns.get? one = some ⟨one, alwaysOneName, .fixed .one, .continuous⟩ := by
  have hchange := model.atomic_one.change
  rw [hone] at hchange
  have hnext := h.cachesOne.of_change hchange
  rcases one_eq_ok_iff.mp hone with ⟨hcached, rfl⟩ | ⟨-, rfl, rfl⟩
  · exact ⟨hcached, hnext one hcached⟩
  · exact ⟨rfl, hnext _ rfl⟩

/--
Folding a constant moves it onto the variable that is always one and changes nothing else.
A zero stays where it is.  Any other constant becomes the last term of that variable, or is
added to the term that it has; the model gets this variable as its last one if it has had
none.  Folding what has been folded changes nothing.
-/
theorem foldConstant_exact (h : model.Reachable) (hbuilt : expr.Built) {folded : LinearExpr}
    (hok : model.foldConstant expr = (next, .ok folded)) :
    (expr.constant.isZero = true → folded = expr ∧ next = model) ∧
      (expr.constant.isZero = false → ∃ one, expr.Folded one folded ∧
        next.alwaysOne = some one ∧
        next.columns.get? one = some ⟨one, alwaysOneName, .fixed .one, .continuous⟩ ∧
        (next = model ∨ model.alwaysOne = none ∧ next = model.withOne ∧
          next.vars = model.vars ++ [⟨one, alwaysOneName, .fixed .one, .continuous⟩])) ∧
      next.foldConstant folded = (next, .ok folded) := by
  cases folds_of_eq hok with
  | zero hzero =>
      exact ⟨fun _ => ⟨rfl, rfl⟩, fun hnot => absurd hzero (Bool.eq_false_iff.mp hnot), hok⟩
  | @moved _ one hzero hfinite hone =>
      have hfolded := hbuilt.canonical.folded_add hzero hfinite one
      have hagain : (expr.add ⟨[(one, expr.constant)], -expr.constant⟩).constant.isZero =
          true := by
        rw [hfolded.constant]
        rfl
      obtain ⟨hcached, hentry⟩ := h.get?_alwaysOne hone
      refine ⟨fun hyes => absurd hyes (Bool.eq_false_iff.mp hzero),
        fun _ => ⟨one, hfolded, hcached, hentry, ?_⟩, foldConstant_of_isZero hagain⟩
      rcases one_eq_ok_iff.mp hone with ⟨-, hsame⟩ | ⟨hdeclares, rfl, rfl⟩
      · exact .inl hsame
      · exact .inr ⟨hdeclares.uncached, rfl, hdeclares.vars_withOne⟩

open LinearExpr in
/-- A term whose id becomes that of the variable only now cancels with the constant. -/
theorem foldConstant_exact_cancelling :
    ∃ (model next : Model) (expr folded : LinearExpr), model.Reachable ∧ expr.Built ∧
      model.foldConstant expr = (next, .ok folded) ∧ next = model.withOne ∧
      expr.terms = [(⟨1⟩, .one), (⟨0⟩, .one)] ∧ expr.Folded ⟨1⟩ folded ∧
      folded.terms = [(⟨0⟩, .one)] ∧ next.foldConstant folded = (next, .ok folded) := by
  let model := run [.declare (.flat "Rice") .nonNegative .continuous]
  let expr := ((var ⟨1⟩).add (var ⟨0⟩)).withConstant (-.one)
  have hreachable : model.Reachable := reachable_run _
  have hbuilt : expr.Built := ((Built.var _).add (.var _)).withConstant _
  have hdeclares : model.DeclaresOne := ⟨by decide +kernel, by decide +kernel, by decide +kernel⟩
  have hnonzero : expr.constant.isZero = false := by decide +kernel
  have hok := foldConstant_of_one_eq_ok hnonzero hdeclares.one_eq
  rw [if_pos (by decide +kernel)] at hok
  obtain ⟨-, hmoved, hagain⟩ := foldConstant_exact hreachable hbuilt hok
  obtain ⟨one, hfolded, hcached, -⟩ := hmoved hnonzero
  obtain rfl : ⟨1⟩ = one := Option.some.inj hcached
  exact ⟨_, _, _, _, hreachable, hbuilt, hok, rfl, by decide +kernel, hfolded, by decide +kernel,
    hagain⟩

end Model

end LinearProgram
