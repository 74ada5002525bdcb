import LinearProgram.Proofs.Document.Summation
import LinearProgram.Proofs.Model.Operations

/-!
# Collecting terms and adding them one by one

A list of terms becomes an expression in two ways.  Collected, every variable keeps the
place where it first comes up, and the terms that cancel are left out at the end.  Added
one by one, a variable whose sum becomes zero on the way loses its place, and gets one at
the end if it comes up again.  Both ways give every variable the same coefficient, and the
same order if no variable cancels before its last term.  The main statement is
`LinearExpr.ofTerms?_exact`.
-/

namespace LinearProgram

namespace LinearExpr

/-- An expression of one term. -/
def single (term : VariableId × Binary64) : LinearExpr :=
  ⟨[term], .zero⟩

/-- The terms added one by one, without those that are zero. -/
def addedUp (terms : List (VariableId × Binary64)) : LinearExpr :=
  sum ((dropZeros terms).map single)

variable {terms : List (VariableId × Binary64)} {term : VariableId × Binary64}

/-! ## One term more -/

theorem term?_eq_single (hzero : term.2.isZero = false) (hfinite : term.2.isFinite = true) :
    term? term.1 term.2 = .ok (single term) := by
  rw [term?, if_neg (by simp [hzero]), if_neg (by simp [hfinite])]
  rfl

/-- The terms that are not zero can be made one by one. -/
theorem mapM_term? (hfinite : ∀ term ∈ terms, term.2.isFinite = true) :
    (dropZeros terms).mapM (fun term => term? term.1 term.2) =
      .ok ((dropZeros terms).map single) := by
  refine mapM_eq_ok fun term hterm => ?_
  obtain ⟨hmem, hkept⟩ := List.mem_filter.mp hterm
  exact term?_eq_single (by simpa using hkept) (hfinite term hmem)

theorem addedUp_append (terms : List (VariableId × Binary64)) (term : VariableId × Binary64) :
    addedUp (terms ++ [term]) =
      if term.2.isZero then addedUp terms else (addedUp terms).add (single term) := by
  rw [addedUp, dropZeros, List.filter_append]
  cases hzero : term.2.isZero with
  | true =>
      rw [List.filter_cons_of_neg (by simp [hzero]), List.filter_nil, List.append_nil, if_pos rfl]
      rfl
  | false =>
      rw [List.filter_cons_of_pos (by simp [hzero]), List.filter_nil, List.map_append,
        List.map_singleton, sum, List.foldl_concat, if_neg Bool.false_ne_true]
      rfl

theorem canonical_single (hzero : term.2.isZero = false) : (single term).Canonical := by
  constructor
  · exact List.nodup_singleton term.1
  · intro other hother
    rw [List.mem_singleton.mp hother, hzero]

theorem canonical_addedUp (terms : List (VariableId × Binary64)) :
    (addedUp terms).Canonical := by
  induction terms using List.reverseRecOn with
  | nil => exact Built.empty.canonical
  | append_singleton terms term ih =>
      rw [addedUp_append]
      split
      · exact ih
      · exact canonical_dropZeros (nodup_foldl_addTerm ih.distinct _) _

theorem constant_addedUp (terms : List (VariableId × Binary64)) :
    (addedUp terms).constant = .zero := by
  induction terms using List.reverseRecOn with
  | nil => rfl
  | append_singleton terms term ih =>
      rw [addedUp_append]
      split
      · exact ih
      · change (addedUp terms).constant + Binary64.zero = .zero
        rw [ih]
        rfl

/-! ## Coefficients -/

section Merge

variable {found added : Option Binary64}

/-- A sum that was zero, and so was dropped, does not matter to what is added to it. -/
theorem filter_merge_filter (hadded : ∀ coefficient ∈ added, coefficient.isZero = false) :
    ((Option.merge (· + ·) (found.filter fun coefficient => !coefficient.isZero) added).filter
        fun coefficient => !coefficient.isZero) =
      (Option.merge (· + ·) found added).filter fun coefficient => !coefficient.isZero := by
  cases found with
  | none => rfl
  | some sum =>
      rw [Option.filter_some]
      cases hsum : sum.isZero with
      | false => rw [Bool.not_false, if_pos rfl]
      | true =>
          rw [Bool.not_true, if_neg Bool.false_ne_true]
          cases added with
          | none =>
              rw [Option.merge_none_right, Option.merge_none_right, Option.filter_some, hsum]
              rfl
          | some coefficient =>
              have hkept := hadded coefficient rfl
              rw [Option.merge_none_left, Option.merge_some_some, Binary64.add_eq_right hsum hkept]

/-- Adding zero changes no coefficient that is not zero. -/
theorem filter_merge_of_isZero (hadded : ∀ coefficient ∈ added, coefficient.isZero = true) :
    ((Option.merge (· + ·) found added).filter fun coefficient => !coefficient.isZero) =
      found.filter fun coefficient => !coefficient.isZero := by
  cases added with
  | none => rw [Option.merge_none_right]
  | some coefficient =>
      have hzero := hadded coefficient rfl
      cases found with
      | none => simp [hzero]
      | some sum =>
          cases hsum : sum.isZero with
          | false => rw [Option.merge_some_some, Binary64.add_eq_left hsum hzero]
          | true =>
              have hboth := Binary64.isZero_add hsum hzero
              rw [Option.merge_some_some, Option.filter_some, Option.filter_some, hboth, hsum]
              rfl

end Merge

theorem coefficient?_single (term : VariableId × Binary64) (id : VariableId) :
    (single term).coefficient? id = if term.1 = id then some term.2 else none :=
  coefficientIn?_cons term [] id

/-- Added one by one, a variable has the coefficient collected for it unless this is zero. -/
theorem coefficient?_addedUp (terms : List (VariableId × Binary64)) (id : VariableId) :
    (addedUp terms).coefficient? id =
      (coefficientIn? (terms.foldl addTerm []) id).filter
        fun coefficient => !coefficient.isZero := by
  induction terms using List.reverseRecOn with
  | nil => rfl
  | append_singleton terms term ih =>
      have hadded {p : Binary64 → Prop} (h : p term.2) :
          ∀ coefficient ∈ if term.1 = id then some term.2 else none, p coefficient := by
        intro coefficient hmem
        split at hmem
        · rwa [← Option.some.inj hmem]
        · cases hmem
      rw [List.foldl_concat, coefficientIn?_addTerm, addedUp_append]
      cases hzero : term.2.isZero with
      | true => rw [if_pos rfl, ih, filter_merge_of_isZero (hadded hzero)]
      | false =>
          rw [if_neg Bool.false_ne_true,
            coefficient?_add (canonical_addedUp terms) (canonical_single hzero),
            mergedCoefficient?, ih, coefficient?_single, filter_merge_filter (hadded hzero)]

/-- What is collected for a variable is the sum of its coefficients from left to right. -/
theorem coefficientIn?_foldl_addTerm_nil (terms : List (VariableId × Binary64))
    (id : VariableId) :
    coefficientIn? (terms.foldl addTerm []) id =
      if id ∈ terms.map Prod.fst then some (sumFor terms id) else none := by
  rw [foldl_addTerm_eq]
  simp only [← List.mem_eraseDups (l := terms.map Prod.fst)]
  induction (terms.map Prod.fst).eraseDups with
  | nil => rfl
  | cons first ids ih =>
      rw [List.map_cons, coefficientIn?_cons, ih]
      by_cases heq : first = id
      · rw [if_pos heq, heq, if_pos List.mem_cons_self]
      · simp [heq, Ne.symm heq]

theorem sumFor_of_not_mem {id : VariableId} (h : id ∉ terms.map Prod.fst) :
    sumFor terms id = .zero := by
  have hnone : (terms.filter fun term => term.1 = id) = [] := by
    refine List.filter_eq_nil_iff.mpr fun term hterm => ?_
    have hne : term.1 ≠ id := fun heq => h (List.mem_map.mpr ⟨term, hterm, heq⟩)
    simpa using hne
  rw [sumFor, hnone]
  rfl

/-- Collected, a variable has the sum of its coefficients unless this is zero. -/
theorem filter_coefficientIn?_foldl_addTerm (terms : List (VariableId × Binary64))
    (id : VariableId) :
    ((coefficientIn? (terms.foldl addTerm []) id).filter
        fun coefficient => !coefficient.isZero) =
      if (sumFor terms id).isZero then none else some (sumFor terms id) := by
  rw [coefficientIn?_foldl_addTerm_nil]
  by_cases hmem : id ∈ terms.map Prod.fst
  · rw [if_pos hmem, Option.filter_some]
    cases (sumFor terms id).isZero <;> rfl
  · rw [if_neg hmem, sumFor_of_not_mem hmem]
    rfl

/-! ## Order -/

/-- Dropping zeros early makes no difference to a term whose variable has not cancelled. -/
theorem dropZeros_addTerm_dropZeros
    (h : ∀ other ∈ terms, other.1 = term.1 → other.2.isZero = false) :
    dropZeros (addTerm (dropZeros terms) term) = dropZeros (addTerm terms term) := by
  obtain ⟨id, coefficient⟩ := term
  induction terms with
  | nil => rfl
  | cons first terms ih =>
      obtain ⟨hfirst, hlater⟩ := List.forall_mem_cons.mp h
      obtain ⟨other, sum⟩ := first
      have hdrop (kept : VariableId × Binary64) (terms : List (VariableId × Binary64)) :
          dropZeros (kept :: terms) =
            if (!kept.2.isZero) = true then kept :: dropZeros terms else dropZeros terms :=
        List.filter_cons
      have hagain : dropZeros (dropZeros terms) = dropZeros terms := by
        rw [dropZeros, dropZeros, List.filter_filter]
        simp
      by_cases heq : other = id
      · have hsum : sum.isZero = false := hfirst heq
        rw [hdrop, if_pos (by simp [hsum]), addTerm, if_pos heq, addTerm, if_pos heq, hdrop, hdrop,
          hagain]
      · rw [addTerm, if_neg heq, hdrop, hdrop]
        split
        · next hkept => rw [addTerm, if_neg heq, hdrop, if_pos hkept, ih hlater]
        · exact ih hlater

/-- If no variable cancels before its last term, both ways give the same terms. -/
theorem terms_addedUp (hnonzero : ∀ term ∈ terms, term.2.isZero = false)
    (hrunning : ∀ front term back, terms = front ++ term :: back →
      term.1 ∈ front.map Prod.fst → (sumFor front term.1).isZero = false) :
    (addedUp terms).terms = dropZeros (terms.foldl addTerm []) := by
  induction terms using List.reverseRecOn with
  | nil => rfl
  | append_singleton terms term ih =>
      have hzero : term.2.isZero = false := hnonzero term (by simp)
      have hearlier := ih (fun other hother => hnonzero other (List.mem_append_left _ hother))
        fun front other back heq hmem => hrunning front other (back ++ [term]) (by simp [heq]) hmem
      have hslot : ∀ other ∈ terms.foldl addTerm [], other.1 = term.1 → other.2.isZero = false := by
        intro other hother hsame
        rw [foldl_addTerm_eq] at hother
        obtain ⟨id, hid, rfl⟩ := List.mem_map.mp hother
        rw [show id = term.1 from hsame] at hid ⊢
        exact hrunning terms term [] rfl (List.mem_eraseDups.mp hid)
      rw [addedUp_append, hzero, if_neg Bool.false_ne_true, List.foldl_concat]
      change dropZeros (addTerm (addedUp terms).terms term) = _
      rw [hearlier, dropZeros_addTerm_dropZeros hslot]

/-! ## The first number that is not finite -/

theorem ofTerms?_eq_error_iff {error : ModelError} :
    ofTerms? terms = .error error ↔ ∃ front term back, terms = front ++ term :: back ∧
      (∀ earlier ∈ front, earlier.2.isFinite = true) ∧ term.2.isFinite = false ∧
        error = .nonFinite term.2 := by
  have hfirst (term : VariableId × Binary64) :
      (terms.find? fun term => !term.2.isFinite) = some term ↔
        ∃ front back, terms = front ++ term :: back ∧
          (∀ earlier ∈ front, earlier.2.isFinite = true) ∧ term.2.isFinite = false := by
    rw [List.find?_eq_some_iff_append]
    constructor
    · rintro ⟨hterm, front, back, heq, hfront⟩
      exact ⟨front, back, heq, by simpa using hfront, by simpa using hterm⟩
    · rintro ⟨front, back, heq, hfront, hterm⟩
      exact ⟨by simpa using hterm, front, back, heq, by simpa using hfront⟩
  rw [ofTerms?]
  constructor
  · intro herror
    split at herror
    · next id coefficient hfound =>
        obtain ⟨front, back, heq, hfront, hterm⟩ := (hfirst _).mp hfound
        exact ⟨front, _, back, heq, hfront, hterm, (Except.error.inj herror).symm⟩
    · cases herror
  · rintro ⟨front, term, back, heq, hfront, hterm, rfl⟩
    rw [(hfirst term).mpr ⟨front, back, heq, hfront, hterm⟩]

/--
What collecting terms gives.  It fails at the first coefficient that is not finite, if
there is one.  Otherwise it gives every variable the sum of its coefficients from left to
right, and none if this is zero, which is also what adding the terms one by one gives,
zeros left out.  The variables are in order of first appearance, and the terms are those
of the sum if no coefficient is zero and no variable cancels before its last term.
-/
theorem ofTerms?_exact (terms : List (VariableId × Binary64)) :
    (∀ error, ofTerms? terms = .error error ↔ ∃ front term back, terms = front ++ term :: back ∧
      (∀ earlier ∈ front, earlier.2.isFinite = true) ∧ term.2.isFinite = false ∧
        error = .nonFinite term.2) ∧
      ((∀ term ∈ terms, term.2.isFinite = true) → ∃ expr exprs, ofTerms? terms = .ok expr ∧
        (dropZeros terms).mapM (fun term => term? term.1 term.2) = .ok exprs ∧
        (∀ id, expr.coefficient? id = (sum exprs).coefficient? id) ∧
        (∀ id, expr.coefficient? id =
          if (sumFor terms id).isZero then none else some (sumFor terms id)) ∧
        expr.vars = ((terms.map Prod.fst).eraseDups.filter
          fun id => !(sumFor terms id).isZero) ∧
        expr.constant = (sum exprs).constant ∧
        ((∀ term ∈ terms, term.2.isZero = false) →
          (∀ front term back, terms = front ++ term :: back → term.1 ∈ front.map Prod.fst →
            (sumFor front term.1).isZero = false) →
          expr = sum exprs)) := by
  refine ⟨fun error => ofTerms?_eq_error_iff, fun hfinite => ?_⟩
  have hdistinct : ((terms.foldl addTerm []).map Prod.fst).Nodup :=
    @nodup_foldl_addTerm [] List.nodup_nil terms
  have hcoefficient (id : VariableId) :
      (⟨dropZeros (terms.foldl addTerm []), .zero⟩ : LinearExpr).coefficient? id =
        (coefficientIn? (terms.foldl addTerm []) id).filter
          fun coefficient => !coefficient.isZero :=
    coefficientIn?_dropZeros hdistinct id
  refine ⟨_, _, ofTerms?_eq_ok_iff.mpr ⟨hfinite, rfl⟩, mapM_term? hfinite, fun id => ?_,
    fun id => ?_, ?_, (constant_addedUp terms).symm, fun hnonzero hrunning => ?_⟩
  · exact (hcoefficient id).trans (coefficient?_addedUp terms id).symm
  · exact (hcoefficient id).trans (filter_coefficientIn?_foldl_addTerm terms id)
  · rw [vars, dropZeros, foldl_addTerm_eq, List.filter_map, List.map_map]
    exact List.map_id _
  · change _ = addedUp terms
    rw [← terms_addedUp hnonzero hrunning, ← constant_addedUp terms]

/-- A variable that cancels and comes up again, with another one in between. -/
def returning : List (VariableId × Binary64) :=
  [(⟨0⟩, .one), (⟨1⟩, .one), (⟨0⟩, -.one), (⟨0⟩, .one)]

/-- Collected, the returning variable keeps its place, and added up it goes to the end. -/
theorem ofTerms?_exact_returning :
    (∀ term ∈ returning, term.2.isFinite = true) ∧ ∃ expr exprs,
      ofTerms? returning = .ok expr ∧
      (dropZeros returning).mapM (fun term => term? term.1 term.2) = .ok exprs ∧
      expr.vars = [⟨0⟩, ⟨1⟩] ∧ (sum exprs).vars = [⟨1⟩, ⟨0⟩] ∧
      (sum exprs).coefficient? ⟨0⟩ = some .one := by
  have hfinite : ∀ term ∈ returning, term.2.isFinite = true := by decide
  obtain ⟨expr, exprs, hcollected, hexprs, hsame, hsums, hvars, -⟩ :=
    (ofTerms?_exact returning).2 hfinite
  have hsum : exprs = (dropZeros returning).map single :=
    Except.ok.inj (hexprs.symm.trans (mapM_term? hfinite))
  refine ⟨hfinite, expr, exprs, hcollected, hexprs, ?_, ?_, ?_⟩
  · rw [hvars]
    decide +kernel
  · rw [hsum]
    decide +kernel
  · rw [← hsame, hsums]
    decide +kernel

end LinearExpr

end LinearProgram
