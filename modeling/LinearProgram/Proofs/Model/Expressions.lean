import LinearProgram.Model.Basic
import LinearProgram.Proofs.Binary64.Sign
import Mathlib.Data.List.Nodup

/-!
# Built expressions

Expressions are built from single terms, constants and lists of terms, by adding,
scaling and setting the constant.  However they are built, a variable comes up once and
no coefficient is zero.  Coefficients need not be finite before a model has taken the
expression.
-/

namespace LinearProgram

namespace LinearExpr

/-- The expressions that can be built. -/
inductive Built : LinearExpr → Prop where
  | empty : Built empty
  | var (id : VariableId) : Built (var id)
  | ofConstant (value : Binary64) : Built (ofConstant value)
  | term {id : VariableId} {coefficient : Binary64} {expr : LinearExpr} :
      term? id coefficient = .ok expr → Built expr
  | ofTerms {terms : List (VariableId × Binary64)} {expr : LinearExpr} :
      ofTerms? terms = .ok expr → Built expr
  | withConstant {expr : LinearExpr} (constant : Binary64) :
      Built expr → Built (expr.withConstant constant)
  | add {a b : LinearExpr} : Built a → Built b → Built (a.add b)
  | scale {expr : LinearExpr} (factor : Binary64) : Built expr → Built (expr.scale factor)

theorem Built.sub {a b : LinearExpr} (ha : Built a) (hb : Built b) : Built (a.sub b) :=
  ha.add (hb.scale _)

theorem Built.sum {exprs : List LinearExpr} (h : ∀ expr ∈ exprs, Built expr) :
    Built (LinearExpr.sum exprs) := by
  have hfold (start : LinearExpr) (hstart : Built start) :
      Built (exprs.foldl LinearExpr.add start) := by
    induction exprs generalizing start with
    | nil => exact hstart
    | cons expr exprs ih =>
        have hexpr : Built expr := h expr List.mem_cons_self
        exact ih (fun e he => h e (List.mem_cons_of_mem expr he)) _ (hstart.add hexpr)
  exact hfold .empty .empty

/-- Each variable comes up once and has a coefficient other than zero. -/
structure Canonical (expr : LinearExpr) : Prop where
  distinct : expr.vars.Nodup
  nonzero : ∀ term ∈ expr.terms, term.2.isZero = false

theorem map_fst_addTerm (terms : List (VariableId × Binary64)) (term : VariableId × Binary64) :
    (addTerm terms term).map Prod.fst =
      if term.1 ∈ terms.map Prod.fst then terms.map Prod.fst
      else terms.map Prod.fst ++ [term.1] := by
  obtain ⟨id, coefficient⟩ := term
  induction terms with
  | nil => rfl
  | cons first terms ih =>
      obtain ⟨other, sum⟩ := first
      rw [addTerm]
      by_cases heq : other = id
      · simp [heq]
      · have hne : id ≠ other := fun h => heq h.symm
        rw [if_neg heq, List.map_cons, ih]
        by_cases hmem : id ∈ terms.map Prod.fst
        · simp [hmem]
        · simp [hmem, hne]

theorem nodup_addTerm {terms : List (VariableId × Binary64)} (h : (terms.map Prod.fst).Nodup)
    (term : VariableId × Binary64) : ((addTerm terms term).map Prod.fst).Nodup := by
  rw [map_fst_addTerm]
  split
  · exact h
  · next hnot =>
      rw [List.nodup_append]
      refine ⟨h, by simp, ?_⟩
      intro id hid other hother
      rw [List.mem_singleton.mp hother]
      exact fun heq => hnot (heq ▸ hid)

theorem nodup_foldl_addTerm {terms : List (VariableId × Binary64)}
    (h : (terms.map Prod.fst).Nodup) (later : List (VariableId × Binary64)) :
    ((later.foldl addTerm terms).map Prod.fst).Nodup := by
  induction later generalizing terms with
  | nil => exact h
  | cons term later ih => exact ih (nodup_addTerm h term)

theorem canonical_dropZeros {terms : List (VariableId × Binary64)}
    (h : (terms.map Prod.fst).Nodup) (constant : Binary64) :
    Canonical ⟨dropZeros terms, constant⟩ := by
  constructor
  · exact List.Sublist.nodup (List.filter_sublist.map Prod.fst) h
  · intro term hterm
    have hkeep := (List.mem_filter.mp hterm).2
    simpa using hkeep

/-- However an expression is built, it is canonical. -/
theorem Built.canonical {expr : LinearExpr} (h : Built expr) : Canonical expr := by
  induction h with
  | empty => exact ⟨List.nodup_nil, fun term hterm => absurd hterm List.not_mem_nil⟩
  | var id =>
      constructor
      · exact List.nodup_singleton id
      · intro term hterm
        rw [List.mem_singleton.mp hterm]
        exact Binary64.isZero_one
  | ofConstant value => exact ⟨List.nodup_nil, fun term hterm => absurd hterm List.not_mem_nil⟩
  | @term id coefficient expr hok =>
      rw [term?] at hok
      split at hok
      · exact nomatch hok
      · next hzero =>
          split at hok
          · exact nomatch hok
          · rw [← Except.ok.inj hok]
            constructor
            · exact List.nodup_singleton id
            · intro term hterm
              rw [List.mem_singleton.mp hterm]
              exact Bool.eq_false_iff.mpr hzero
  | @ofTerms terms expr hok =>
      rw [ofTerms?] at hok
      split at hok
      · exact nomatch hok
      · rw [← Except.ok.inj hok]
        have hdistinct : ((terms.foldl addTerm []).map Prod.fst).Nodup :=
          @nodup_foldl_addTerm [] List.nodup_nil terms
        exact canonical_dropZeros hdistinct .zero
  | withConstant constant _ ih => exact ⟨ih.distinct, ih.nonzero⟩
  | @add a b _ _ iha _ => exact canonical_dropZeros (nodup_foldl_addTerm iha.distinct b.terms) _
  | @scale expr factor _ ih =>
      rw [LinearExpr.scale]
      split
      · exact ⟨List.nodup_nil, fun term hterm => absurd hterm List.not_mem_nil⟩
      · apply canonical_dropZeros
        rw [List.map_map]
        exact ih.distinct

end LinearExpr

end LinearProgram
