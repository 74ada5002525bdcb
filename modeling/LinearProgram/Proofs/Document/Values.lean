import LinearProgram.Proofs.Document.Grammar
import Mathlib.Data.List.Induction
import Mathlib.Logic.Function.Iterate

/-!
# Values in documents

Signs, summands and the sides of bounds are turned into values by small functions that
the parser and the grammar share.  Here it is said without these functions what they come
to: a value is negated once for each minus sign, an expression is what its summands add up
to from left to right, and a bound statement allows the numbers for which its relations
hold.
-/

namespace LinearProgram

theorem Binary64.neg_neg (x : Binary64) : -(-x) = x := by
  cases x with
  | nan => rfl
  | infinity negative => exact congrArg infinity (Bool.not_not negative)
  | finite negative m => exact congrArg (finite · m) (Bool.not_not negative)

namespace Grammar

open Reader

/-! ## Signs -/

/-- Line breaks that lead from one position to another. -/
def SkipsLines (gap : Cursor → Cursor → Prop) : Prop :=
  ∀ c d, gap c d → ∃ breaks, c.rest = breaks ++ d.rest ∧
    ∀ token ∈ breaks, token.kind = .newline

/-- The signs of a value stand side by side. -/
theorem skipsLines_eq : SkipsLines Eq := by
  rintro c d rfl
  exact ⟨[], rfl, List.forall_mem_nil _⟩

/-- The signs of a summand may have line breaks behind them. -/
theorem skipsLines_breaks : SkipsLines Breaks := by
  intro c d h
  induction h with
  | stay hkind => exact ⟨[], rfl, List.forall_mem_nil _⟩
  | @line previous token tokens d hkind hlater ih =>
      obtain ⟨breaks, hrest, hbreaks⟩ := ih
      refine ⟨token :: breaks, congrArg (token :: ·) hrest, ?_⟩
      exact List.forall_mem_cons.mpr ⟨hkind, hbreaks⟩

/-- The minus signs among some tokens. -/
def minuses (tokens : List Token) : Nat :=
  tokens.countP fun token => token.kind = .minus

/-- The tokens from a sign up to where the signs behind it begin. -/
theorem minuses_sign {token : Token} {breaks passed : List Token}
    (hbreaks : ∀ token ∈ breaks, token.kind = .newline) :
    minuses (token :: (breaks ++ passed)) =
      minuses passed + if token.kind = .minus then 1 else 0 := by
  have hnone : breaks.countP (fun token => token.kind = .minus) = 0 :=
    List.countP_eq_zero.mpr fun token hmem => by simp [hbreaks token hmem]
  rw [minuses, List.countP_cons, List.countP_append, hnone, Nat.zero_add]
  simp [minuses]

theorem succ_mod_two (count : Nat) : ((count + 1) % 2 == 1) = !(count % 2 == 1) := by
  rcases Nat.mod_two_eq_zero_or_one count with heven | hodd
  · simp [Nat.add_mod, heven]
  · simp [Nat.add_mod, hodd]

/-- Signs, and line breaks between them. -/
def AreSigns (tokens : List Token) : Prop :=
  ∀ token ∈ tokens, token.kind = .plus ∨ token.kind = .minus ∨ token.kind = .newline

theorem areSigns_cons {token : Token} {breaks passed : List Token}
    (htoken : token.kind = .plus ∨ token.kind = .minus)
    (hbreaks : ∀ token ∈ breaks, token.kind = .newline) (hpassed : AreSigns passed) :
    AreSigns (token :: (breaks ++ passed)) := by
  have hbetween : AreSigns breaks := fun other hmem => .inr (.inr (hbreaks other hmem))
  refine List.forall_mem_cons.mpr ⟨htoken.imp_right Or.inl, ?_⟩
  exact List.forall_mem_append.mpr ⟨hbetween, hpassed⟩

/-- Signs are negative together if an odd number of them are minus signs. -/
theorem SignsAt.exists_passed {gap : Cursor → Cursor → Prop} (hgap : SkipsLines gap)
    {c d : Cursor} {negative : Bool} (h : SignsAt gap c negative d) :
    ∃ passed, c.rest = passed ++ d.rest ∧ AreSigns passed ∧
      negative = (minuses passed % 2 == 1) := by
  induction h with
  | none => exact ⟨[], rfl, List.forall_mem_nil _, rfl⟩
  | @plus previous token tokens d e negative hkind hskip hlater ih =>
      obtain ⟨breaks, hrest, hbreaks⟩ := hgap _ _ hskip
      obtain ⟨passed, hpassed, hsigns, hnegative⟩ := ih
      refine ⟨token :: (breaks ++ passed), ?_, areSigns_cons (.inl hkind) hbreaks hsigns, ?_⟩
      · rw [List.cons_append, List.append_assoc, ← hpassed, ← hrest]
      · rw [minuses_sign hbreaks, hkind, if_neg TokenKind.noConfusion, hnegative, Nat.add_zero]
  | @minus previous token tokens d e negative hkind hskip hlater ih =>
      obtain ⟨breaks, hrest, hbreaks⟩ := hgap _ _ hskip
      obtain ⟨passed, hpassed, hsigns, hnegative⟩ := ih
      refine ⟨token :: (breaks ++ passed), ?_, areSigns_cons (.inr hkind) hbreaks hsigns, ?_⟩
      · rw [List.cons_append, List.append_assoc, ← hpassed, ← hrest]
      · rw [minuses_sign hbreaks, hkind, if_pos rfl, succ_mod_two, hnegative]

theorem applySign_odd (count : Nat) (value : Binary64) :
    applySign (count % 2 == 1) value = Neg.neg^[count] value := by
  induction count with
  | zero => rfl
  | succ count ih =>
      rw [Function.iterate_succ_apply', ← ih, succ_mod_two]
      cases count % 2 == 1 with
      | true => exact (Binary64.neg_neg value).symm
      | false => rfl

/-- A value behind signs is negated once for each minus sign among them. -/
theorem SignsAt.exists_applySign_eq {gap : Cursor → Cursor → Prop} (hgap : SkipsLines gap)
    {c d : Cursor} {negative : Bool} (h : SignsAt gap c negative d) (value : Binary64) :
    ∃ passed, c.rest = passed ++ d.rest ∧ AreSigns passed ∧
      applySign negative value = Neg.neg^[minuses passed] value := by
  obtain ⟨passed, hrest, hsigns, rfl⟩ := h.exists_passed hgap
  exact ⟨passed, hrest, hsigns, applySign_odd (minuses passed) value⟩

/-! ## Sums -/

/-- What summands add up to, one after the other. -/
inductive AddsUp : List Summand → WrittenExpr → Prop
  | nothing : AddsUp [] ⟨[], .zero⟩
  | term {summands : List Summand} {expr : WrittenExpr} (term : WrittenTerm)
      (h : AddsUp summands expr) :
      AddsUp (summands ++ [.term term]) ⟨expr.terms ++ [term], expr.constant⟩
  | number {summands : List Summand} {expr : WrittenExpr} (value : Binary64)
      (h : AddsUp summands expr) :
      AddsUp (summands ++ [.constant value]) ⟨expr.terms, expr.constant + value⟩

theorem addsUp_exprOf (summands : List Summand) : AddsUp summands (exprOf summands) := by
  induction summands using List.reverseRecOn with
  | nil => exact .nothing
  | append_singleton summands last ih =>
      cases last with
      | term term =>
          have hlast : exprOf (summands ++ [.term term]) =
              ⟨(exprOf summands).terms ++ [term], (exprOf summands).constant⟩ := by
            simp [exprOf]
          rw [hlast]
          exact .term term ih
      | constant value =>
          have hlast : exprOf (summands ++ [.constant value]) =
              ⟨(exprOf summands).terms, (exprOf summands).constant + value⟩ := by
            simp [exprOf]
          rw [hlast]
          exact .number value ih

/-- Terms are kept in order, and numbers are added up from zero. -/
theorem addsUp_iff {summands : List Summand} {expr : WrittenExpr} :
    AddsUp summands expr ↔ expr = exprOf summands := by
  constructor
  · intro h
    induction h with
    | nothing => rfl
    | term term h ih =>
        rw [ih]
        simp [exprOf]
    | number value h ih =>
        rw [ih]
        simp [exprOf]
  · rintro rfl
    exact addsUp_exprOf summands

/-! ## Sides -/

/-- Whether two numbers stand in a relation. -/
def Holds (x : Binary64) : Relation → Binary64 → Prop
  | .le, y => x.numLe y = true
  | .ge, y => y.numLe x = true
  | .eq, y => x.numEq y = true

/-- Whether a number lies within the sides of a bound statement that are given. -/
def Allows (sides : Option Binary64 × Option Binary64) (x : Binary64) : Prop :=
  (∀ lower ∈ sides.1, lower.numLe x = true) ∧ ∀ upper ∈ sides.2, x.numLe upper = true

variable {relation : Relation} {value value' x : Binary64}

theorem numEq_iff_numLe {y : Binary64} :
    x.numEq y = true ↔ y.numLe x = true ∧ x.numLe y = true := by
  rw [Binary64.numEq, Binary64.numLe, Binary64.numLe]
  cases x.position? <;> cases y.position? <;> simp
  omega

theorem holds_flip : Holds x relation.flip value ↔ Holds value relation x := by
  cases relation with
  | le => exact Iff.rfl
  | ge => exact Iff.rfl
  | eq => exact numEq_iff_numLe.trans (and_comm.trans numEq_iff_numLe.symm)

/-- The sides that a relation to a number bounds allow what stands in this relation. -/
theorem allows_sidesOf : Allows (sidesOf relation value) x ↔ Holds x relation value := by
  cases relation with
  | le => simp [Allows, sidesOf, Holds]
  | ge => simp [Allows, sidesOf, Holds]
  | eq => simp [Allows, sidesOf, Holds, numEq_iff_numLe]

/-- Sides that are given count, and the earlier ones count where they are not. -/
theorem allows_overSides {sides earlier : Option Binary64 × Option Binary64} :
    Allows (overSides sides earlier) x ↔ Allows sides x ∧
      (sides.1 = none → ∀ lower ∈ earlier.1, lower.numLe x = true) ∧
      (sides.2 = none → ∀ upper ∈ earlier.2, x.numLe upper = true) := by
  obtain ⟨_ | lower, _ | upper⟩ := sides
  · simp [Allows, overSides]
  · simp [Allows, overSides, and_comm]
  · simp [Allows, overSides]
  · simp [Allows, overSides]

/-- A number before the name and one behind it, with the same relation, both bound it. -/
theorem allows_twoSided (h : relation ≠ .eq) :
    Allows (overSides (sidesOf relation value') (sidesOf relation.flip value)) x ↔
      Holds value relation x ∧ Holds x relation value' := by
  rw [allows_overSides, allows_sidesOf, and_comm]
  cases relation with
  | le => simp [sidesOf, Relation.flip, Holds]
  | ge => simp [sidesOf, Relation.flip, Holds]
  | eq => exact absurd rfl h

end Grammar

end LinearProgram
