import LinearProgram.Proofs.Document.DeclarationOrder
import LinearProgram.Proofs.Document.Naturality
import LinearProgram.Proofs.Model.Reachable
import Mathlib.Data.List.Induction

/-!
# Sums of coefficients

An expression may mention a variable more than once.  Resolving it keeps one term for
each name, where the name first comes up, with the sum of the coefficients from left to
right, and leaves out the terms that cancel.  The main statements are
`WrittenExpr.resolve_eq_ok_iff` and `WrittenExpr.checkExpr_summed_iff`, which also say
when an expression is refused.
-/

namespace LinearProgram

/-- Numbers added from left to right, beginning with the first. -/
def Binary64.leftSum : List Binary64 → Binary64
  | [] => .zero
  | first :: later => later.foldl (· + ·) first

namespace WrittenExpr

/-- The names in an expression, each where it first comes up. -/
def names (expr : WrittenExpr) : List String :=
  (expr.terms.map WrittenTerm.name).eraseDups

/-- The sum of the coefficients of a name. -/
def sumOf (expr : WrittenExpr) (name : String) : Binary64 :=
  .leftSum ((expr.terms.filter fun term => term.name = name).map WrittenTerm.coefficient)

/-- The expression whose terms refer to names by their places in an order. -/
def resolved (expr : WrittenExpr) (order : List String) : LinearExpr :=
  ⟨expr.terms.map fun term => (⟨order.idxOf term.name⟩, term.coefficient), expr.constant⟩

/-- The sums of an expression whose names refer to places in an order. -/
def summed (expr : WrittenExpr) (order : List String) : LinearExpr where
  terms := LinearExpr.dropZeros (expr.names.map fun name => (⟨order.idxOf name⟩, expr.sumOf name))
  constant := expr.constant

end WrittenExpr

theorem mapM_eq_ok
    {α β ε : Type} {f : α → Except ε β} {g : α → β} {xs : List α}
    (h : ∀ x ∈ xs, f x = .ok (g x)) :
    xs.mapM f = .ok (xs.map g) := by
  induction xs with
  | nil => rfl
  | cons x xs ih =>
      have hlater := ih fun y hy => h y (List.mem_cons_of_mem x hy)
      rw [List.mapM_cons, h x List.mem_cons_self, hlater]
      rfl

theorem idxOf?_of_mem
    {name : String} {order : List String} (h : name ∈ order) :
    order.idxOf? name = some (order.idxOf name) := by
  induction order with
  | nil => exact absurd h List.not_mem_nil
  | cons first order ih =>
      rw [List.idxOf?_cons, List.idxOf_cons]
      cases hbeq : first == name with
      | true => rfl
      | false =>
          have hne : first ≠ name := beq_eq_false_iff_ne.mp hbeq
          rw [ih ((List.mem_cons.mp h).resolve_left hne.symm)]
          rfl

/-! ## Adding terms -/

namespace LinearExpr

theorem addTerm_of_not_mem
    {terms : List (VariableId × Binary64)} {term : VariableId × Binary64}
    (h : term.1 ∉ terms.map Prod.fst) : addTerm terms term = terms ++ [term] := by
  obtain ⟨id, coefficient⟩ := term
  induction terms with
  | nil => rfl
  | cons first terms ih =>
      obtain ⟨other, sum⟩ := first
      rw [List.map_cons, List.mem_cons, not_or] at h
      have hne : other ≠ id := fun heq => h.1 heq.symm
      rw [addTerm, if_neg hne, ih h.2, List.cons_append]

/-- Adding to a variable that has a term changes the coefficient of this term only. -/
theorem addTerm_of_mem {ids : List VariableId} (hdistinct : ids.Nodup)
    (sums : VariableId → Binary64) {id : VariableId} (h : id ∈ ids) (coefficient : Binary64) :
    addTerm (ids.map fun other => (other, sums other)) (id, coefficient) =
      ids.map fun other =>
        (other, if other = id then sums other + coefficient else sums other) := by
  induction ids with
  | nil => exact absurd h List.not_mem_nil
  | cons first ids ih =>
      obtain ⟨hfresh, hlater⟩ := List.nodup_cons.mp hdistinct
      rw [List.map_cons, List.map_cons, addTerm]
      by_cases heq : first = id
      · have hrest : ids.map (fun other => (other, sums other)) = ids.map fun other =>
            (other, if other = id then sums other + coefficient else sums other) := by
          refine List.map_congr_left fun other hother => ?_
          have hne : other ≠ id := fun hsame => hfresh (heq ▸ hsame ▸ hother)
          rw [if_neg hne]
        rw [if_pos heq, if_pos heq, hrest]
      · rw [if_neg heq, if_neg heq, ih hlater ((List.mem_cons.mp h).resolve_left (Ne.symm heq))]

/-- The coefficients of a variable added from left to right. -/
def sumFor (terms : List (VariableId × Binary64)) (id : VariableId) : Binary64 :=
  .leftSum ((terms.filter fun term => term.1 = id).map Prod.snd)

theorem leftSum_append_singleton (xs : List Binary64) (x : Binary64) :
    Binary64.leftSum (xs ++ [x]) = if xs = [] then x else Binary64.leftSum xs + x := by
  cases xs with
  | nil => rfl
  | cons first xs =>
      rw [if_neg (List.cons_ne_nil _ _), List.cons_append, Binary64.leftSum, List.foldl_concat]
      rfl

theorem sumFor_append_of_ne (terms : List (VariableId × Binary64))
    {term : VariableId × Binary64} {id : VariableId} (h : term.1 ≠ id) :
    sumFor (terms ++ [term]) id = sumFor terms id := by
  rw [sumFor, List.filter_append, List.filter_cons_of_neg (by simpa using h), List.filter_nil,
    List.append_nil]
  rfl

theorem sumFor_append_self (terms : List (VariableId × Binary64))
    (term : VariableId × Binary64) :
    sumFor (terms ++ [term]) term.1 =
      if term.1 ∈ terms.map Prod.fst then sumFor terms term.1 + term.2 else term.2 := by
  have hempty : (terms.filter fun other => other.1 = term.1).map Prod.snd = [] ↔
      term.1 ∉ terms.map Prod.fst := by
    simp only [List.map_eq_nil_iff, List.filter_eq_nil_iff, decide_eq_true_eq, List.mem_map,
      not_exists, not_and]
  rw [sumFor, List.filter_append, List.filter_cons_of_pos (by simp), List.filter_nil,
    List.map_append, List.map_singleton, leftSum_append_singleton]
  by_cases hmem : term.1 ∈ terms.map Prod.fst
  · rw [if_pos hmem, if_neg fun hnil => hempty.mp hnil hmem]
    rfl
  · rw [if_neg hmem, if_pos (hempty.mpr hmem)]

/-- Adding up terms gives one term for each variable, where it first comes up. -/
theorem foldl_addTerm_eq (terms : List (VariableId × Binary64)) :
    terms.foldl addTerm [] =
      (terms.map Prod.fst).eraseDups.map fun id => (id, sumFor terms id) := by
  induction terms using List.reverseRecOn with
  | nil => rfl
  | append_singleton terms term ih =>
      have hids : (((terms.map Prod.fst).eraseDups.map fun id => (id, sumFor terms id)).map
          Prod.fst) = (terms.map Prod.fst).eraseDups := by
        rw [List.map_map]
        exact List.map_id _
      rw [List.foldl_concat, ih, List.map_append, List.map_singleton, List.eraseDups_append]
      by_cases hmem : term.1 ∈ terms.map Prod.fst
      · have hnone : [term.1].removeAll (terms.map Prod.fst) = [] := by
          simp [List.removeAll, hmem]
        rw [addTerm_of_mem (nodup_eraseDups _) _ (List.mem_eraseDups.mpr hmem), hnone,
          List.eraseDups_nil, List.append_nil]
        refine List.map_congr_left fun id _ => ?_
        by_cases heq : id = term.1
        · rw [if_pos heq, heq, sumFor_append_self, if_pos hmem]
        · rw [if_neg heq, sumFor_append_of_ne terms (Ne.symm heq)]
      · have hnew : [term.1].removeAll (terms.map Prod.fst) = [term.1] := by
          simp [List.removeAll, hmem]
        have hfresh : term.1 ∉ ((terms.map Prod.fst).eraseDups.map fun id =>
            (id, sumFor terms id)).map Prod.fst := by
          rw [hids, List.mem_eraseDups]
          exact hmem
        rw [addTerm_of_not_mem hfresh, hnew, eraseDups_eq_self (List.nodup_singleton _),
          List.map_append, List.map_singleton, sumFor_append_self, if_neg hmem]
        refine congrArg (· ++ [term]) (List.map_congr_left fun id hid => ?_)
        have hne : term.1 ≠ id := fun heq => hmem (heq ▸ List.mem_eraseDups.mp hid)
        rw [sumFor_append_of_ne terms hne]

theorem ofTerms?_eq_ok_iff {terms : List (VariableId × Binary64)} {expr : LinearExpr} :
    ofTerms? terms = .ok expr ↔
      (∀ term ∈ terms, term.2.isFinite = true) ∧
        expr = ⟨dropZeros (terms.foldl addTerm []), .zero⟩ := by
  have hfinite : (terms.find? fun term => !term.2.isFinite) = none ↔
      ∀ term ∈ terms, term.2.isFinite = true := by
    simp
  rw [ofTerms?, ← hfinite]
  cases terms.find? fun term => !term.2.isFinite with
  | none => simp [eq_comm]
  | some term => simp

end LinearExpr

/-! ## Resolving expressions -/

namespace WrittenExpr

variable {expr : WrittenExpr} {order : List String}

theorem foldl_addTerm_resolved (hnames : ∀ term ∈ expr.terms, term.name ∈ order) :
    (expr.resolved order).terms.foldl LinearExpr.addTerm [] =
      expr.names.map fun name => (⟨order.idxOf name⟩, expr.sumOf name) := by
  let place (name : String) : VariableId := ⟨order.idxOf name⟩
  have hplace : Set.InjOn place { name | name ∈ order } := fun name hname other _ heq =>
    (List.idxOf_inj hname).mp (VariableId.mk.inj heq)
  have hmentioned : ∀ name ∈ expr.terms.map WrittenTerm.name, name ∈ order := by
    intro name hname
    obtain ⟨term, hterm, rfl⟩ := List.mem_map.mp hname
    exact hnames term hterm
  have hids : (expr.resolved order).terms.map Prod.fst =
      (expr.terms.map WrittenTerm.name).map place := by
    rw [resolved, List.map_map, List.map_map]
    rfl
  rw [LinearExpr.foldl_addTerm_eq, hids, eraseDups_map_of_injOn hplace _ hmentioned,
    List.map_map, names]
  refine List.map_congr_left fun name hname => ?_
  have hname' : name ∈ order := hmentioned name (List.mem_eraseDups.mp hname)
  have hfilter : (expr.resolved order).terms.filter (fun term => term.1 = place name) =
      (expr.terms.filter fun term => term.name = name).map fun term =>
        (place term.name, term.coefficient) := by
    rw [resolved, List.filter_map]
    refine congrArg _ (List.filter_congr fun term hterm => ?_)
    simp only [Function.comp_apply, decide_eq_decide]
    exact hplace.eq_iff (hnames term hterm) hname'
  rw [Function.comp_apply, LinearExpr.sumFor, hfilter, List.map_map]
  rfl

/-- An expression is resolved when its coefficients are finite, and to its sums. -/
theorem resolve_eq_ok_iff (hnames : ∀ term ∈ expr.terms, term.name ∈ order)
    {sum : LinearExpr} :
    expr.resolve order = .ok sum ↔
      (∀ term ∈ expr.terms, term.coefficient.isFinite = true) ∧ sum = expr.summed order := by
  have hfinite : (∀ term ∈ (expr.resolved order).terms, term.2.isFinite = true) ↔
      ∀ term ∈ expr.terms, term.coefficient.isFinite = true := by
    simp [resolved]
  rw [resolve, mapM_eq_ok fun term hterm => by rw [idxOf?_of_mem (hnames term hterm)],
    Reader.ok_bind]
  change LinearExpr.ofTerms? (expr.resolved order).terms >>= _ = _ ↔ _
  rw [Reader.bind_eq_ok_iff]
  simp only [LinearExpr.ofTerms?_eq_ok_iff, hfinite, foldl_addTerm_resolved hnames]
  constructor
  · rintro ⟨found, ⟨hall, rfl⟩, hok⟩
    exact ⟨hall, (Except.ok.inj hok).symm⟩
  · rintro ⟨hall, rfl⟩
    exact ⟨_, ⟨hall, rfl⟩, rfl⟩

theorem mem_names {name : String} :
    name ∈ expr.names ↔ ∃ term ∈ expr.terms, term.name = name := by
  rw [names, List.mem_eraseDups, List.mem_map]

/-- The sums of an expression are taken by a model with its variables if they are finite. -/
theorem checkExpr_summed_iff (hnames : ∀ term ∈ expr.terms, term.name ∈ order) {model : Model}
    (hlength : model.vars.length = order.length) :
    model.checkExpr (expr.summed order) = .ok () ↔
      (∀ name ∈ expr.names, (expr.sumOf name).isFinite = true) ∧
        expr.constant.isFinite = true := by
  have hdeclared : ∀ id ∈ (expr.summed order).vars, id.index < model.vars.length := by
    intro id hid
    obtain ⟨term, hterm, rfl⟩ := List.mem_map.mp hid
    obtain ⟨name, hname, rfl⟩ := List.mem_map.mp (List.mem_of_mem_filter hterm)
    obtain ⟨written, hwritten, rfl⟩ := mem_names.mp hname
    rw [hlength]
    exact List.idxOf_lt_length_of_mem (hnames written hwritten)
  have hzero {x : Binary64} (h : x.isZero = true) : x.isFinite = true := by
    cases x with
    | finite negative m => rfl
    | _ => cases h
  have hfinite : (∀ term ∈ (expr.summed order).terms, term.2.isFinite = true) ↔
      ∀ name ∈ expr.names, (expr.sumOf name).isFinite = true := by
    constructor
    · intro hall name hname
      by_cases hcancels : (expr.sumOf name).isZero = true
      · exact hzero hcancels
      · refine hall (⟨order.idxOf name⟩, expr.sumOf name) (List.mem_filter.mpr ⟨?_, ?_⟩)
        · exact List.mem_map.mpr ⟨name, hname, rfl⟩
        · simpa using hcancels
    · intro hall term hterm
      obtain ⟨name, hname, rfl⟩ := List.mem_map.mp (List.mem_of_mem_filter hterm)
      exact hall name hname
  rw [Model.checkExpr_eq_ok_iff, hfinite]
  exact ⟨fun h => h.2, fun h => ⟨hdeclared, h⟩⟩

end WrittenExpr

end LinearProgram
