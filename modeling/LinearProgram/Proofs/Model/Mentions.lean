import LinearProgram.Proofs.Document.Assembly
import LinearProgram.Proofs.Model.Denotation

/-!
# What a denoted document says about its variables

The document of a model mentions exactly the variables that the model says something
about.  It mentions them by their written names, which tell them apart, so that the kind
and the bounds that the document has for a name are those of the variable, up to the
sign of zero.  The sections list variables in order of declaration.
-/

namespace LinearProgram

/-! ## Lists with a key -/

section Keys

variable {α β κ : Type} [DecidableEq κ]

theorem filterMap_sublist_map
    {f : α → Option β} {g : α → β} {xs : List α}
    (h : ∀ x ∈ xs, ∀ y, f x = some y → g x = y) :
    (xs.filterMap f).Sublist (xs.map g) := by
  induction xs with
  | nil => exact List.Sublist.slnil
  | cons x xs ih =>
      have hlater : (xs.filterMap f).Sublist (xs.map g) := by
        apply ih
        intro y hy
        exact h y (List.mem_cons_of_mem x hy)
      cases hx : f x with
      | none =>
          rw [List.filterMap_cons_none hx, List.map_cons]
          exact hlater.cons (g x)
      | some y =>
          rw [List.filterMap_cons_some hx, List.map_cons, h x List.mem_cons_self y hx]
          exact hlater.cons_cons y

/-- With distinct keys, one element has the key of a given one. -/
theorem filter_key_eq_singleton
    {key : α → κ} {xs : List α} (h : (xs.map key).Nodup) {x : α} (hx : x ∈ xs) :
    (xs.filter fun y => key y = key x) = [x] := by
  induction xs with
  | nil => exact absurd hx List.not_mem_nil
  | cons first xs ih =>
      obtain ⟨hfresh, hlater⟩ := List.nodup_cons.mp h
      rcases List.mem_cons.mp hx with rfl | hx
      · have hnone : (xs.filter fun y => key y = key x) = [] := by
          rw [List.filter_eq_nil_iff]
          intro y hy hkey
          exact hfresh (List.mem_map.mpr ⟨y, hy, of_decide_eq_true hkey⟩)
        rw [List.filter_cons_of_pos (by simp), hnone]
      · have hne : ¬key first = key x := by
          intro heq
          exact hfresh (heq ▸ List.mem_map.mpr ⟨x, hx, rfl⟩)
        rw [List.filter_cons_of_neg (by simpa using hne), ih hlater hx]

end Keys

/-! ## Bounds -/

/-- Bounds without the signs of zeros. -/
def Bounds.dropZeroSigns (bounds : Bounds) : Bounds :=
  ⟨bounds.lower.dropZeroSign, bounds.upper.dropZeroSign⟩

namespace Bounds

variable {bounds : Bounds}

theorem isValid_dropZeroSigns : bounds.dropZeroSigns.isValid = bounds.isValid := by
  simp [isValid, dropZeroSigns, Binary64.numLe]

theorem isDefault_dropZeroSigns : bounds.dropZeroSigns.isDefault = bounds.isDefault := by
  simp [isDefault, dropZeroSigns]

theorem writtenSides_dropZeroSigns : bounds.dropZeroSigns.writtenSides = bounds.writtenSides := by
  simp [writtenSides, isDefault, isFixed, isFree, dropZeroSigns, Binary64.numEq]

theorem numEq_dropZeroSigns
    (h : bounds.isValid = true) :
    bounds.dropZeroSigns.lower.numEq bounds.lower = true ∧
      bounds.dropZeroSigns.upper.numEq bounds.upper = true := by
  obtain ⟨hlower, hupper, -⟩ := isValid_iff.mp h
  exact ⟨Binary64.numEq_dropZeroSign hlower, Binary64.numEq_dropZeroSign hupper⟩

theorem dropZeroSigns_unitInterval : unitInterval.dropZeroSigns = unitInterval := by
  have hone : Binary64.one.dropZeroSign = Binary64.one :=
    Binary64.dropZeroSign_of_not_isZero Binary64.isZero_one
  have hzero : Binary64.zero.dropZeroSign = Binary64.zero := Binary64.dropZeroSign_of_isZero rfl
  rw [dropZeroSigns, unitInterval, hone, hzero]

theorem dropZeroSigns_of_isDefault
    (h : bounds.isDefault = true) : bounds.dropZeroSigns = nonNegative := by
  rw [isDefault, Bool.and_eq_true] at h
  rw [dropZeroSigns, Binary64.dropZeroSign_of_isZero h.1,
    (Binary64.dropZeroSign_of_isPositiveInfinity h.2).2]
  rfl

/-- The sides that a statement leaves out are those that bounds have without a statement. -/
theorem override_writtenSides
    (span : Span) (name : String) :
    nonNegative.override ⟨span, name, bounds.writtenSides.1, bounds.writtenSides.2⟩ =
      bounds.dropZeroSigns := by
  rw [writtenSides]
  split
  next hdefault => exact (dropZeroSigns_of_isDefault hdefault).symm
  split
  next hfixed =>
    have hsame : bounds.lower.dropZeroSign = bounds.upper.dropZeroSign :=
      Binary64.dropZeroSign_eq_of_numEq hfixed
    rw [dropZeroSigns, ← hsame]
    rfl
  split
  · rfl
  split
  next hzero =>
    rw [dropZeroSigns, Binary64.dropZeroSign_of_isZero hzero]
    rfl
  split
  · rfl
  split
  next hinfinite =>
    rw [dropZeroSigns, (Binary64.dropZeroSign_of_isPositiveInfinity hinfinite).2]
    rfl
  · rfl

end Bounds

namespace Model

/-! ## Written names -/

/-- The written names of the variables. -/
def names (model : Model) (declaredNames : Bool) : List String :=
  model.vars.zipIdx.map fun (entry, index) => (variableName declaredNames entry index).text

/-- Whether the variable at a place is used in the objective or in a constraint. -/
def Uses (model : Model) (index : Nat) : Prop :=
  (∃ objective ∈ model.objective, ⟨index⟩ ∈ objective.expr.vars) ∨
    ∃ entry ∈ model.constraints, ⟨index⟩ ∈ entry.expr.vars

/-- Whether a variable is used, or has bounds or a kind of its own. -/
def Mentions (model : Model) (index : Nat) : Prop :=
  model.Uses index ∨ ∃ entry, model.vars[index]? = some entry ∧
    (entry.kind ≠ .binary ∧ entry.bounds.isDefault = false ∨ entry.kind = .integer ∨
      entry.kind = .binary)

variable {model : Model} {declaredNames : Bool} {index : Nat} {entry : Variable}

theorem getElem?_names
    (declaredNames : Bool) (hentry : model.vars[index]? = some entry) :
    (model.names declaredNames)[index]? =
      some (variableName declaredNames entry index).text := by
  rw [names, List.getElem?_map, List.getElem?_zipIdx, hentry]
  simp

theorem length_names
    (model : Model) (declaredNames : Bool) :
    (model.names declaredNames).length = model.vars.length := by
  rw [names, List.length_map, List.length_zipIdx]

/-- Variables with one written name are the same. -/
theorem WellFormed.eq_of_text_variableName
    (h : model.WellFormed) {i j : Nat} {a b : Variable} (ha : model.vars[i]? = some a)
    (hb : model.vars[j]? = some b)
    (heq : (variableName declaredNames a i).text = (variableName declaredNames b j).text) :
    i = j ∧ a = b := by
  have hchars := String.ofList_injective heq
  have hname := (h.isValid_variableName declaredNames ha).chars_injective
    (h.isValid_variableName declaredNames hb) hchars
  have hindex := h.variableName_injective ha hb hname
  rw [hindex, hb] at ha
  exact ⟨hindex, (Option.some.inj ha).symm⟩

theorem WellFormed.nodup_names
    (h : model.WellFormed) (declaredNames : Bool) : (model.names declaredNames).Nodup := by
  apply nodup_zipIdx_map
  intro i j a b ha hb heq
  exact (h.eq_of_text_variableName ha hb heq).1

/-! ## Kinds and bounds -/

theorem WellFormed.mem_namesOfKind_iff
    (h : model.WellFormed) (hentry : model.vars[index]? = some entry) {kind : VariableKind} :
    (variableName declaredNames entry index).text ∈ model.namesOfKind declaredNames kind ↔
      entry.kind = kind := by
  rw [mem_namesOfKind_iff_exists]
  constructor
  · rintro ⟨place, other, hother, hkind, hname⟩
    exact (h.eq_of_text_variableName hother hentry hname).2 ▸ hkind
  · intro hkind
    exact ⟨index, entry, hentry, hkind, rfl⟩

theorem exists_of_mem_namesOfKind
    {kind : VariableKind} {name : String} (hname : name ∈ model.namesOfKind declaredNames kind) :
    ∃ index entry, model.vars[index]? = some entry ∧
      (variableName declaredNames entry index).text = name := by
  obtain ⟨index, entry, hentry, -, hname⟩ := mem_namesOfKind_iff_exists.mp hname
  exact ⟨index, entry, hentry, hname⟩

theorem name_of_writtenBound?_eq_some
    {statement : BoundStatement}
    (hsome : writtenBound? declaredNames entry index = some statement) :
    statement.name = (variableName declaredNames entry index).text := by
  rw [writtenBound?] at hsome
  split at hsome
  · exact absurd hsome (Option.some_ne_none _).symm
  · rw [← Option.some.inj hsome]

theorem isSome_writtenBound?
    (declaredNames : Bool) (entry : Variable) (index : Nat) :
    (writtenBound? declaredNames entry index).isSome = true ↔
      entry.kind ≠ .binary ∧ entry.bounds.isDefault = false := by
  rw [writtenBound?]
  by_cases hbinary : entry.kind = .binary
  · simp [hbinary]
  · cases entry.bounds.isDefault <;> simp [hbinary]

section Denoted

variable {objective : Objective} {signature : Option String}

theorem boundNames_sublist
    (model : Model) (objective : Objective) (declaredNames : Bool) (signature : Option String) :
    ((model.documentWith objective declaredNames signature).bounds.map
      BoundStatement.name).Sublist (model.names declaredNames) := by
  change ((model.vars.zipIdx.filterMap _).map _).Sublist _
  rw [List.map_filterMap]
  apply filterMap_sublist_map
  rintro ⟨entry, index⟩ - name hname
  obtain ⟨statement, hstatement, rfl⟩ := Option.map_eq_some_iff.mp hname
  exact (name_of_writtenBound?_eq_some hstatement).symm

theorem namesOfKind_sublist
    (kind : VariableKind) :
    (model.namesOfKind declaredNames kind).Sublist (model.names declaredNames) := by
  apply filterMap_sublist_map
  rintro ⟨entry, index⟩ - name hname
  dsimp only at hname
  split at hname
  · exact Option.some.inj hname
  · exact nomatch hname

theorem WellFormed.kindOf_documentWith
    (h : model.WellFormed) (hentry : model.vars[index]? = some entry) :
    (model.documentWith objective declaredNames signature).kindOf
      (variableName declaredNames entry index).text = entry.kind := by
  rw [Document.kindOf]
  simp only [documentWith, List.contains_eq_mem, h.mem_namesOfKind_iff hentry]
  cases entry.kind <;> rfl

/-- The statements about a variable are the one that is written for it, if there is one. -/
theorem WellFormed.filter_bounds_documentWith
    (h : model.WellFormed) (hentry : model.vars[index]? = some entry) :
    ((model.documentWith objective declaredNames signature).bounds.filter fun statement =>
      statement.name = (variableName declaredNames entry index).text) =
      (writtenBound? declaredNames entry index).toList := by
  have hnodup := (boundNames_sublist model objective declaredNames signature).nodup
    (h.nodup_names declaredNames)
  cases hbound : writtenBound? declaredNames entry index with
  | none =>
      rw [Option.toList_none, List.filter_eq_nil_iff]
      intro statement hstatement hname
      obtain ⟨place, other, hother, hsome⟩ := mem_bounds_documentWith_iff.mp hstatement
      rw [decide_eq_true_eq, name_of_writtenBound?_eq_some hsome] at hname
      obtain ⟨rfl, rfl⟩ := h.eq_of_text_variableName hother hentry hname
      exact nomatch hbound.symm.trans hsome
  | some statement =>
      rw [← name_of_writtenBound?_eq_some hbound, Option.toList_some]
      exact filter_key_eq_singleton hnodup
        (mem_bounds_documentWith_iff.mpr ⟨index, entry, hentry, hbound⟩)

/-- The document has for a name what is written for the variable of this name. -/
theorem WellFormed.variableAt_documentWith
    (h : model.WellFormed) (hentry : model.vars[index]? = some entry) (place : Nat) :
    (model.documentWith objective declaredNames signature).variableAt place
      (variableName declaredNames entry index).text =
      ⟨⟨place⟩, variableName declaredNames entry index, entry.bounds.dropZeroSigns,
        entry.kind⟩ := by
  have hname := (h.isValid_variableName declaredNames hentry).ofText_text
  rw [Document.variableAt, hname, h.kindOf_documentWith hentry, Document.boundsOf,
    h.filter_bounds_documentWith hentry, VariableTable.boundsFor]
  by_cases hbinary : entry.kind = .binary
  · rw [if_pos hbinary, h.binaries entry (List.mem_of_getElem? hentry) hbinary,
      Bounds.dropZeroSigns_unitInterval]
  rw [if_neg hbinary, writtenBound?]
  cases hdefault : entry.bounds.isDefault with
  | true =>
      rw [if_pos (by simp), Bounds.dropZeroSigns_of_isDefault hdefault]
      rfl
  | false =>
      rw [if_neg (by simp [hbinary]), Option.toList_some, List.foldl_cons, List.foldl_nil,
        Bounds.override_writtenSides]

/-! ## Mentions -/

theorem map_name_writtenTerms
    (expr : LinearExpr) :
    (model.writtenTerms declaredNames expr).map WrittenTerm.name =
      expr.vars.map (model.nameOf declaredNames) := by
  rw [writtenTerms, LinearExpr.vars, List.map_map, List.map_map]
  rfl

theorem exists_of_mem_writtenTerms
    {expr : LinearExpr} (hexpr : Admits model.vars expr) {name : String}
    (hname : name ∈ (model.writtenTerms declaredNames expr).map WrittenTerm.name) :
    ∃ index entry, model.vars[index]? = some entry ∧
      (variableName declaredNames entry index).text = name := by
  rw [map_name_writtenTerms] at hname
  obtain ⟨id, hid, rfl⟩ := List.mem_map.mp hname
  obtain ⟨entry, hentry⟩ := hexpr.exists_entry hid
  exact ⟨id.index, entry, hentry, (nameOf_eq hentry).symm⟩

theorem WellFormed.mem_writtenTerms_iff
    (h : model.WellFormed) (declaredNames : Bool) (hentry : model.vars[index]? = some entry)
    {expr : LinearExpr} (hexpr : Admits model.vars expr) :
    (variableName declaredNames entry index).text ∈
        (model.writtenTerms declaredNames expr).map WrittenTerm.name ↔
      ⟨index⟩ ∈ expr.vars := by
  rw [map_name_writtenTerms, List.mem_map]
  constructor
  · rintro ⟨id, hid, hname⟩
    obtain ⟨other, hother⟩ := hexpr.exists_entry hid
    rw [nameOf_eq hother] at hname
    have hindex := (h.eq_of_text_variableName hother hentry hname).1
    exact hindex ▸ hid
  · intro hid
    exact ⟨⟨index⟩, hid, nameOf_eq hentry⟩

theorem mentions_documentWith :
    (model.documentWith objective declaredNames signature).mentions =
      (model.writtenTerms declaredNames objective.expr).map WrittenTerm.name ++
        model.constraints.flatMap (fun entry =>
          (model.writtenTerms declaredNames entry.expr).map WrittenTerm.name) ++
        (model.documentWith objective declaredNames signature).bounds.map BoundStatement.name ++
        model.namesOfKind declaredNames .integer ++ model.namesOfKind declaredNames .binary := by
  have hrows : (model.documentWith objective declaredNames signature).rows.flatMap
      (fun row => row.expr.terms.map WrittenTerm.name) =
      model.constraints.flatMap (fun entry =>
        (model.writtenTerms declaredNames entry.expr).map WrittenTerm.name) := by
    have hentries := List.zipIdx_map_fst 0 model.constraints
    rw [documentWith, List.flatMap_map]
    conv_rhs => rw [← hentries, List.flatMap_map]
    rfl
  rw [Document.mentions, hrows]
  rfl

/-- Every mention is the written name of a variable. -/
theorem WellFormed.exists_of_mem_mentions
    (h : model.WellFormed) (hobjective : model.objective = some objective) {name : String}
    (hname : name ∈ (model.documentWith objective declaredNames signature).mentions) :
    ∃ index entry, model.vars[index]? = some entry ∧
      (variableName declaredNames entry index).text = name := by
  rw [mentions_documentWith] at hname
  simp only [List.mem_append] at hname
  rcases hname with (((hobj | hrow) | hbound) | hgeneral) | hbinary
  · exact exists_of_mem_writtenTerms (h.objective objective hobjective) hobj
  · obtain ⟨entry, hentry, hterm⟩ := List.mem_flatMap.mp hrow
    exact exists_of_mem_writtenTerms (h.rows entry hentry) hterm
  · obtain ⟨statement, hstatement, rfl⟩ := List.mem_map.mp hbound
    obtain ⟨index, entry, hentry, hsome⟩ := mem_bounds_documentWith_iff.mp hstatement
    exact ⟨index, entry, hentry, (name_of_writtenBound?_eq_some hsome).symm⟩
  · exact exists_of_mem_namesOfKind hgeneral
  · exact exists_of_mem_namesOfKind hbinary

/-- The document mentions what the model says something about. -/
theorem WellFormed.mem_mentions_iff
    (h : model.WellFormed) (hobjective : model.objective = some objective)
    (hentry : model.vars[index]? = some entry) :
    (variableName declaredNames entry index).text ∈
        (model.documentWith objective declaredNames signature).mentions ↔
      model.Mentions index := by
  have hobj := h.mem_writtenTerms_iff declaredNames hentry (h.objective objective hobjective)
  have hrows : (variableName declaredNames entry index).text ∈ model.constraints.flatMap
      (fun entry => (model.writtenTerms declaredNames entry.expr).map WrittenTerm.name) ↔
      ∃ entry ∈ model.constraints, ⟨index⟩ ∈ entry.expr.vars := by
    rw [List.mem_flatMap]
    apply exists_congr
    intro row
    apply and_congr_right
    intro hrow
    exact h.mem_writtenTerms_iff declaredNames hentry (h.rows row hrow)
  have hbounds : (variableName declaredNames entry index).text ∈
      (model.documentWith objective declaredNames signature).bounds.map BoundStatement.name ↔
      entry.kind ≠ .binary ∧ entry.bounds.isDefault = false := by
    rw [← isSome_writtenBound? declaredNames entry index, List.mem_map]
    constructor
    · rintro ⟨statement, hstatement, hname⟩
      obtain ⟨place, other, hother, hsome⟩ := mem_bounds_documentWith_iff.mp hstatement
      rw [name_of_writtenBound?_eq_some hsome] at hname
      obtain ⟨rfl, rfl⟩ := h.eq_of_text_variableName hother hentry hname
      rw [hsome, Option.isSome_some]
    · intro hsome
      obtain ⟨statement, hstatement⟩ := Option.isSome_iff_exists.mp hsome
      exact ⟨statement, mem_bounds_documentWith_iff.mpr ⟨index, entry, hentry, hstatement⟩,
        name_of_writtenBound?_eq_some hstatement⟩
  rw [mentions_documentWith]
  simp only [List.mem_append, hobj, hrows, hbounds, h.mem_namesOfKind_iff hentry, Mentions,
    Uses, hobjective, hentry, Option.mem_some_iff, exists_eq_left', Option.some.injEq, or_assoc]

end Denoted

end Model

end LinearProgram
