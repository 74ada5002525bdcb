import LinearProgram.Proofs.Binary64.Arithmetic
import LinearProgram.Proofs.Model.Expressions
import Mathlib.Data.List.Basic

/-!
# Operations on expressions

An expression is known by the order of its variables and by the coefficient of each.  In
these terms, adding keeps the variables of the first side in their order and puts the new
ones of the second side behind them, each with its coefficient or with the sum of both,
and leaves out those that cancel.  The main statement is `LinearExpr.operations_exact`.
-/

namespace LinearProgram

namespace LinearExpr

/-- The coefficient of a variable in some terms. -/
def coefficientIn? (terms : List (VariableId × Binary64)) (id : VariableId) : Option Binary64 :=
  (terms.find? fun term => term.1 = id).map Prod.snd

/-- The coefficient of a variable in a sum that is not yet rid of zeros. -/
def mergedCoefficient? (a b : LinearExpr) (id : VariableId) : Option Binary64 :=
  Option.merge (· + ·) (a.coefficient? id) (b.coefficient? id)

/-- The variables of two expressions, those of the first one in front. -/
def mergedVars (a b : LinearExpr) : List VariableId :=
  a.vars ++ b.vars.filter fun id => id ∉ a.vars

/-- Whether all numbers of an expression are finite. -/
def IsFinite (expr : LinearExpr) : Prop :=
  (∀ term ∈ expr.terms, term.2.isFinite = true) ∧ expr.constant.isFinite = true

/-! ## Coefficients -/

variable {terms later : List (VariableId × Binary64)}

theorem coefficient?_eq (expr : LinearExpr) (id : VariableId) :
    expr.coefficient? id = coefficientIn? expr.terms id :=
  rfl

theorem coefficientIn?_cons (term : VariableId × Binary64)
    (terms : List (VariableId × Binary64)) (id : VariableId) :
    coefficientIn? (term :: terms) id =
      if term.1 = id then some term.2 else coefficientIn? terms id := by
  rw [coefficientIn?, List.find?_cons]
  by_cases heq : term.1 = id
  · simp [heq]
  · simp [heq, coefficientIn?]

theorem coefficientIn?_eq_none {id : VariableId} (h : id ∉ terms.map Prod.fst) :
    coefficientIn? terms id = none := by
  rw [coefficientIn?, Option.map_eq_none_iff, List.find?_eq_none]
  intro term hterm
  have hne : term.1 ≠ id := fun heq => h (List.mem_map.mpr ⟨term, hterm, heq⟩)
  simpa using hne

/-- A list with one term for each variable is given by its variables and coefficients. -/
theorem eq_filterMap_coefficientIn? (h : (terms.map Prod.fst).Nodup) :
    terms = (terms.map Prod.fst).filterMap fun id => (coefficientIn? terms id).map (id, ·) := by
  induction terms with
  | nil => rfl
  | cons term terms ih =>
      obtain ⟨hfresh, hlater⟩ := List.nodup_cons.mp h
      have hrest : (terms.map Prod.fst).filterMap
            (fun id => (coefficientIn? (term :: terms) id).map (id, ·)) =
          (terms.map Prod.fst).filterMap fun id => (coefficientIn? terms id).map (id, ·) := by
        refine List.filterMap_congr fun id hid => ?_
        have hne : term.1 ≠ id := fun heq => hfresh (heq ▸ hid)
        rw [coefficientIn?_cons, if_neg hne]
      have hfirst : (coefficientIn? (term :: terms) term.1).map (term.1, ·) = some term := by
        rw [coefficientIn?_cons, if_pos rfl]
        rfl
      simp only [List.map_cons, List.filterMap_cons, hfirst, hrest]
      exact congrArg (term :: ·) (ih hlater)

/-- Without the zeros, a variable keeps its coefficient unless this is zero. -/
theorem coefficientIn?_dropZeros (h : (terms.map Prod.fst).Nodup) (id : VariableId) :
    coefficientIn? (dropZeros terms) id =
      (coefficientIn? terms id).filter fun coefficient => !coefficient.isZero := by
  induction terms with
  | nil => rfl
  | cons term terms ih =>
      obtain ⟨hfresh, hlater⟩ := List.nodup_cons.mp h
      have hdrop : dropZeros (term :: terms) =
          if (!term.2.isZero) = true then term :: dropZeros terms else dropZeros terms :=
        List.filter_cons
      rw [coefficientIn?_cons, hdrop]
      by_cases heq : term.1 = id
      · have hnone : coefficientIn? (dropZeros terms) id = none := by
          rw [ih hlater, coefficientIn?_eq_none (heq ▸ hfresh), Option.filter_none]
        rw [if_pos heq, Option.filter_some]
        split
        · rw [coefficientIn?_cons, if_pos heq]
        · exact hnone
      · rw [if_neg heq, ← ih hlater]
        split
        · rw [coefficientIn?_cons, if_neg heq]
        · rfl

theorem dropZeros_eq_filterMap (h : (terms.map Prod.fst).Nodup) :
    dropZeros terms = (terms.map Prod.fst).filterMap fun id =>
      ((coefficientIn? terms id).filter fun coefficient => !coefficient.isZero).map (id, ·) := by
  have hfilter := congrArg dropZeros (eq_filterMap_coefficientIn? h)
  rw [dropZeros, dropZeros, List.filter_filterMap] at hfilter
  refine hfilter.trans (List.filterMap_congr fun id _ => ?_)
  cases coefficientIn? terms id with
  | none => rfl
  | some coefficient =>
      rw [Option.map_some, Option.filter_some, Option.filter_some]
      split <;> rfl

/-! ## Adding terms -/

/-- A term is added to the coefficient of its variable and to no other. -/
theorem coefficientIn?_addTerm (terms : List (VariableId × Binary64))
    (term : VariableId × Binary64) (id : VariableId) :
    coefficientIn? (addTerm terms term) id =
      Option.merge (· + ·) (coefficientIn? terms id)
        (if term.1 = id then some term.2 else none) := by
  obtain ⟨added, coefficient⟩ := term
  induction terms with
  | nil =>
      rw [addTerm, coefficientIn?_cons]
      split <;> rfl
  | cons first terms ih =>
      obtain ⟨other, sum⟩ := first
      rw [addTerm, coefficientIn?_cons]
      by_cases heq : other = added
      · rw [if_pos heq, coefficientIn?_cons]
        subst heq
        split
        · rfl
        · rw [Option.merge_none_right]
      · rw [if_neg heq, coefficientIn?_cons, ih]
        by_cases hid : other = id
        · have hne : added ≠ id := fun hsame => heq (hid.trans hsame.symm)
          simp only [hid, hne, if_true, if_false, Option.merge_none_right]
        · rw [if_neg hid, if_neg hid]

/-- Terms of different variables are added each to the coefficient of its variable. -/
theorem coefficientIn?_foldl_addTerm (terms : List (VariableId × Binary64))
    (h : (later.map Prod.fst).Nodup) (id : VariableId) :
    coefficientIn? (later.foldl addTerm terms) id =
      Option.merge (· + ·) (coefficientIn? terms id) (coefficientIn? later id) := by
  induction later generalizing terms with
  | nil => exact Option.merge_none_right.symm
  | cons term later ih =>
      obtain ⟨hfresh, hlater⟩ := List.nodup_cons.mp h
      rw [List.foldl_cons, ih _ hlater, coefficientIn?_addTerm, coefficientIn?_cons]
      by_cases heq : term.1 = id
      · have hnone : coefficientIn? later id = none := coefficientIn?_eq_none (heq ▸ hfresh)
        rw [if_pos heq, if_pos heq, hnone, Option.merge_none_right]
      · rw [if_neg heq, if_neg heq, Option.merge_none_right]

/-- New variables go behind the old ones, in their own order. -/
theorem map_fst_foldl_addTerm (terms : List (VariableId × Binary64))
    (h : (later.map Prod.fst).Nodup) :
    (later.foldl addTerm terms).map Prod.fst =
      terms.map Prod.fst ++ (later.map Prod.fst).filter fun id => id ∉ terms.map Prod.fst := by
  induction later generalizing terms with
  | nil => simp
  | cons term later ih =>
      obtain ⟨hfresh, hlater⟩ := List.nodup_cons.mp h
      rw [List.foldl_cons, ih _ hlater, map_fst_addTerm, List.map_cons, List.filter_cons]
      by_cases hmem : term.1 ∈ terms.map Prod.fst
      · rw [if_pos hmem, if_neg (by simpa using hmem)]
      · have hsame : (later.map Prod.fst).filter (fun id => id ∉ terms.map Prod.fst ++ [term.1]) =
            (later.map Prod.fst).filter fun id => id ∉ terms.map Prod.fst := by
          refine List.filter_congr fun id hid => ?_
          have hne : id ≠ term.1 := fun heq => hfresh (heq ▸ hid)
          simp [hne]
        rw [if_neg hmem, if_pos (by simpa using hmem), hsame, List.append_assoc]
        rfl

/-! ## Sums -/

section Sums

variable {a b : LinearExpr}

/-- The variable of a sum has the coefficient of one side or the sum of both, if not zero. -/
theorem coefficient?_add (ha : a.Canonical) (hb : b.Canonical) (id : VariableId) :
    (a.add b).coefficient? id =
      (mergedCoefficient? a b id).filter fun coefficient => !coefficient.isZero := by
  have hdistinct := nodup_foldl_addTerm ha.distinct b.terms
  rw [coefficient?_eq, add, coefficientIn?_dropZeros hdistinct,
    coefficientIn?_foldl_addTerm a.terms hb.distinct]
  rfl

theorem terms_add (ha : a.Canonical) (hb : b.Canonical) :
    (a.add b).terms = (mergedVars a b).filterMap fun id =>
      ((mergedCoefficient? a b id).filter fun coefficient => !coefficient.isZero).map (id, ·) := by
  have hdistinct := nodup_foldl_addTerm ha.distinct b.terms
  rw [add, dropZeros_eq_filterMap hdistinct, map_fst_foldl_addTerm a.terms hb.distinct]
  simp only [coefficientIn?_foldl_addTerm a.terms hb.distinct]
  rfl

theorem mergedCoefficient?_comm (a b : LinearExpr) (id : VariableId) :
    mergedCoefficient? a b id = mergedCoefficient? b a id :=
  (Option.commutative_merge (α := Binary64) (· + ·)).comm _ _

end Sums

/-! ## Multiples and differences -/

theorem coefficient?_scale {expr : LinearExpr} (h : expr.Canonical) {factor : Binary64}
    (hfactor : factor.isZero = false) (id : VariableId) :
    (expr.scale factor).coefficient? id =
      ((expr.coefficient? id).map (· * factor)).filter fun coefficient => !coefficient.isZero := by
  have hvars : (expr.terms.map fun term => (term.1, term.2 * factor)).map Prod.fst =
      expr.vars := by
    rw [List.map_map]
    rfl
  have hmap (terms : List (VariableId × Binary64)) :
      coefficientIn? (terms.map fun term => (term.1, term.2 * factor)) id =
        (coefficientIn? terms id).map (· * factor) := by
    rw [coefficientIn?, coefficientIn?, List.find?_map, Option.map_map, Option.map_map]
    rfl
  rw [coefficient?_eq, scale, if_neg (by simp [hfactor]),
    coefficientIn?_dropZeros (hvars ▸ h.distinct), hmap]
  rfl

theorem isZero_neg_one : (-Binary64.one).isZero = false := by
  rw [Binary64.isZero_neg, Binary64.isZero_one]

theorem scale_eq_empty (expr : LinearExpr) {factor : Binary64} (h : factor.isZero = true) :
    expr.scale factor = empty :=
  if_pos h

theorem constant_scale (expr : LinearExpr) {factor : Binary64} (h : factor.isZero = false) :
    (expr.scale factor).constant = expr.constant * factor := by
  rw [scale, if_neg (by simp [h])]

theorem terms_scale (expr : LinearExpr) {factor : Binary64} (h : factor.isZero = false) :
    (expr.scale factor).terms = expr.terms.filterMap fun term =>
      if (term.2 * factor).isZero then none else some (term.1, term.2 * factor) := by
  rw [scale, if_neg (by simp [h]), dropZeros, ← List.filterMap_eq_map, List.filter_filterMap]
  refine List.filterMap_congr fun term _ => ?_
  rw [Function.comp_apply, Option.filter_some]
  cases (term.2 * factor).isZero <;> rfl

/-- A coefficient of a finite expression cancels with what taking it away adds. -/
theorem mergedCoefficient?_self {expr : LinearExpr} (h : expr.Canonical)
    (hfinite : expr.IsFinite) (id : VariableId) :
    ((mergedCoefficient? expr (expr.scale (-.one)) id).filter
      fun coefficient => !coefficient.isZero) = none := by
  rw [mergedCoefficient?, coefficient?_scale h isZero_neg_one]
  cases hfound : expr.coefficient? id with
  | none => rfl
  | some coefficient =>
      obtain ⟨term, hterm, rfl⟩ := Option.map_eq_some_iff.mp hfound
      have hmem : term ∈ expr.terms := List.mem_of_find?_eq_some hterm
      have hnegative : term.2 * -.one = -term.2 := Binary64.mul_neg_one (hfinite.1 term hmem)
      have hcancel : term.2 + -term.2 = .zero := Binary64.add_neg_self (hfinite.1 term hmem)
      have hkept : (-term.2).isZero = false := by
        rw [Binary64.isZero_neg, h.nonzero term hmem]
      rw [Option.map_some, hnegative, Option.filter_some, hkept, Bool.not_false, if_pos rfl,
        Option.merge_some_some, hcancel]
      rfl

/-- Nothing is left of a finite expression taken from itself. -/
theorem sub_self {expr : LinearExpr} (h : expr.Built) (hfinite : expr.IsFinite) :
    expr.sub expr = empty := by
  have hterms : (expr.sub expr).terms = [] := by
    rw [sub, terms_add h.canonical (h.scale _).canonical, List.filterMap_eq_nil_iff]
    intro id _
    rw [mergedCoefficient?_self h.canonical hfinite, Option.map_none]
  have hconstant : (expr.sub expr).constant = .zero := by
    change expr.constant + (expr.scale (-.one)).constant = .zero
    rw [constant_scale expr isZero_neg_one, Binary64.mul_neg_one hfinite.2,
      Binary64.add_neg_self hfinite.2]
  generalize expr.sub expr = difference at hterms hconstant
  obtain ⟨terms, constant⟩ := difference
  subst hterms hconstant
  rfl

/--
What the operations on expressions mean.  Whatever is built has every variable once and
no coefficient that is zero.  A sum has the variables of both sides with their merged
coefficients and does not depend on the order of the sides, but for the order of its
variables.  A multiple has every number multiplied, a zero factor leaves nothing, and a
difference is the sum with the negative, which is empty for a finite expression and itself.
-/
theorem operations_exact {a b : LinearExpr} (ha : a.Built) (hb : b.Built) :
    (a.Canonical ∧ (a.sub b).Built ∧
        ∀ exprs : List LinearExpr, (∀ expr ∈ exprs, expr.Built) → (sum exprs).Built) ∧
      ((a.add b).terms = (mergedVars a b).filterMap (fun id =>
          ((mergedCoefficient? a b id).filter fun coefficient => !coefficient.isZero).map
            (id, ·)) ∧
        (a.add b).constant = a.constant + b.constant) ∧
      (∀ id, (a.add b).coefficient? id = (b.add a).coefficient? id) ∧
      (∀ factor : Binary64, factor.isZero = false →
        (a.scale factor).terms = a.terms.filterMap (fun term =>
            if (term.2 * factor).isZero then none else some (term.1, term.2 * factor)) ∧
          (a.scale factor).constant = a.constant * factor) ∧
      (∀ factor : Binary64, factor.isZero = true → a.scale factor = empty) ∧
      a.sub b = a.add (b.scale (-.one)) ∧
      (a.IsFinite → a.sub a = empty) := by
  refine ⟨⟨ha.canonical, ha.sub hb, fun exprs hexprs => Built.sum hexprs⟩,
    ⟨terms_add ha.canonical hb.canonical, rfl⟩, ?_, ?_, ?_, rfl, sub_self ha⟩
  · intro id
    rw [coefficient?_add ha.canonical hb.canonical, coefficient?_add hb.canonical ha.canonical,
      mergedCoefficient?_comm]
  · intro factor hfactor
    exact ⟨terms_scale a hfactor, constant_scale a hfactor⟩
  · intro factor hfactor
    exact scale_eq_empty a hfactor

/-- Infinite coefficients of both signs make a NaN, which is kept on either side. -/
theorem operations_exact_overflowing :
    ∃ a b : LinearExpr, a.Built ∧ b.Built ∧ a.vars = [⟨0⟩] ∧ b.vars = [⟨1⟩, ⟨0⟩] ∧
      (a.add b).terms = [(⟨0⟩, .nan), (⟨1⟩, .one)] ∧
      (b.add a).coefficient? ⟨0⟩ = some .nan := by
  have ha : ((var ⟨0⟩).scale (.infinity false)).Built := .scale _ (.var _)
  have hb : ((var ⟨1⟩).add ((var ⟨0⟩).scale (.infinity true))).Built :=
    .add (.var _) (.scale _ (.var _))
  obtain ⟨-, ⟨hterms, -⟩, hcomm, -⟩ := operations_exact ha hb
  refine ⟨_, _, ha, hb, by decide +kernel, by decide +kernel, ?_, ?_⟩
  · rw [hterms]
    decide +kernel
  · rw [← hcomm]
    decide +kernel

end LinearExpr

end LinearProgram
