import LinearProgram.Proofs.Model.RoundTrip
import LinearProgram.Proofs.Model.Store
import LinearProgram.Proofs.Model.Writing

/-!
# Numbered names

Written with numbered names and read back, a model may have its variables at new places,
so that the next text may number them differently.  After that nothing moves any more.
The order of declaration does not depend on names, and it is its own order of
declaration, so the second text is read as a model in which everything has the number of
its place, and this model is written as the second text again.  The main statement is
`Reachable.numbered_write_settles`.
-/

namespace LinearProgram

namespace Model

/-- Everything is named by a letter and the number of its place. -/
structure Numbered (model : Model) : Prop where
  vars : ∀ (index : Nat) (entry : Variable), model.vars[index]? = some entry →
    entry.name = .numbered 'x' index
  constraints : ∀ (index : Nat) (entry : Constraint), model.constraints[index]? = some entry →
    entry.name = .numbered 'c' index

/-- The numbered name of the variable with a declared name. -/
def numberedName (model : Model) (name : String) : String :=
  (Name.numbered 'x' ((model.names true).idxOf name)).text

variable {model : Model} {objective : Objective} {declaredNames : Bool}

/-! ## Renaming -/

theorem WellFormed.numberedName_eq
    (h : model.WellFormed) {index : Nat} {entry : Variable}
    (hentry : model.vars[index]? = some entry) :
    model.numberedName (variableName true entry index).text =
      (variableName false entry index).text := by
  obtain ⟨hlt, hname⟩ := List.getElem?_eq_some_iff.mp (getElem?_names true hentry)
  rw [numberedName, ← hname, (h.nodup_names true).idxOf_getElem index hlt]
  rfl

theorem WellFormed.names_numbered
    (h : model.WellFormed) : model.names false = (model.names true).map model.numberedName := by
  rw [Model.names, Model.names, List.map_map]
  apply List.map_congr_left
  rintro ⟨entry, index⟩ hmem
  exact (h.numberedName_eq (List.mem_zipIdx_iff_getElem?.mp hmem)).symm

theorem WellFormed.writtenTerms_numbered
    (h : model.WellFormed) {expr : LinearExpr} (hexpr : Admits model.vars expr) :
    (model.writtenTerms false expr).map WrittenTerm.name =
      ((model.writtenTerms true expr).map WrittenTerm.name).map model.numberedName := by
  rw [map_name_writtenTerms, map_name_writtenTerms, List.map_map]
  apply List.map_congr_left
  intro id hid
  obtain ⟨entry, hentry⟩ := hexpr.exists_entry hid
  rw [Function.comp_apply, nameOf_eq hentry, nameOf_eq hentry, h.numberedName_eq hentry]

theorem WellFormed.namesOfKind_numbered
    (h : model.WellFormed) (kind : VariableKind) :
    model.namesOfKind false kind = (model.namesOfKind true kind).map model.numberedName := by
  rw [namesOfKind, namesOfKind, List.map_filterMap]
  apply List.filterMap_congr
  rintro ⟨entry, index⟩ hmem
  have hname := h.numberedName_eq (List.mem_zipIdx_iff_getElem?.mp hmem)
  dsimp only
  split
  · rw [Option.map_some, hname]
  · rfl

theorem map_name_writtenBound?
    (declaredNames : Bool) (entry : Variable) (index : Nat) :
    (writtenBound? declaredNames entry index).map BoundStatement.name =
      if entry.kind = .binary || entry.bounds.isDefault then none
      else some (variableName declaredNames entry index).text := by
  rw [writtenBound?]
  split <;> rfl

theorem WellFormed.boundNames_numbered
    (h : model.WellFormed) (objective : Objective) (signature : Option String) :
    (model.documentWith objective false signature).bounds.map BoundStatement.name =
      ((model.documentWith objective true signature).bounds.map BoundStatement.name).map
        model.numberedName := by
  rw [documentWith, documentWith, List.map_filterMap, List.map_filterMap, List.map_filterMap]
  apply List.filterMap_congr
  rintro ⟨entry, index⟩ hmem
  have hname := h.numberedName_eq (List.mem_zipIdx_iff_getElem?.mp hmem)
  dsimp only
  rw [map_name_writtenBound?, map_name_writtenBound?]
  split
  · rfl
  · rw [Option.map_some, hname]

/-- Written with numbers, a model declares its variables in the same order. -/
theorem WellFormed.rereadOrder_numbered
    (h : model.WellFormed) (hobjective : model.objective = some objective) :
    model.rereadOrder objective false =
      (model.rereadOrder objective true).map model.numberedName := by
  apply Document.declarationOrder_map
  · intro name hname name' hname' heq
    obtain ⟨i, a, ha, rfl⟩ := h.exists_of_mem_mentions hobjective hname
    obtain ⟨j, b, hb, rfl⟩ := h.exists_of_mem_mentions hobjective hname'
    rw [h.numberedName_eq ha, h.numberedName_eq hb] at heq
    obtain ⟨rfl, rfl⟩ := h.eq_of_text_variableName ha hb heq
    rfl
  · have hrows : model.constraints.flatMap (fun entry =>
        (model.writtenTerms false entry.expr).map WrittenTerm.name) =
        model.constraints.flatMap fun entry =>
          ((model.writtenTerms true entry.expr).map WrittenTerm.name).map model.numberedName :=
      List.flatMap_congr fun entry hentry => h.writtenTerms_numbered (h.rows entry hentry)
    rw [mentions_documentWith, mentions_documentWith,
      h.writtenTerms_numbered (h.objective objective hobjective), hrows, h.boundNames_numbered,
      h.namesOfKind_numbered, h.namesOfKind_numbered]
    simp only [List.map_append, List.map_flatMap]
  · rw [h.listings_documentWith, h.listings_documentWith, listedNames, listedNames,
      h.boundNames_numbered, h.namesOfKind_numbered, h.namesOfKind_numbered]
    rfl

/-! ## The second reading -/

theorem names_reread :
    (model.reread objective declaredNames).names true =
      model.rereadOrder objective declaredNames := by
  have hvars : (model.reread objective declaredNames).names true =
      (model.reread objective declaredNames).vars.map fun entry => entry.name.text := by
    have hentries := List.zipIdx_map_fst 0 (model.reread objective declaredNames).vars
    conv_rhs => rw [← hentries, List.map_map]
    rfl
  rw [hvars, vars_reread, List.map_map]
  refine (List.map_congr_left fun name _ => ?_).trans (List.map_id _)
  exact Name.text_ofText name

/-- Once it has been read, a document is declared in the order in which it is read. -/
theorem WellFormed.rereadOrder_reread
    (h : model.WellFormed) (hobjective : model.objective = some objective)
    (hfinite : ∀ entry ∈ model.constraints, entry.effectiveRhs.isFinite = true)
    (hagain : (model.reread objective declaredNames).WellFormed) :
    (model.reread objective declaredNames).rereadOrder
      (model.rereadObjective objective declaredNames) false =
      (model.reread objective declaredNames).names false := by
  have hdeclared : (model.reread objective declaredNames).rereadOrder
      (model.rereadObjective objective declaredNames) true =
      model.rereadOrder objective declaredNames := by
    rw [rereadOrder, h.documentWith_reread hobjective hfinite]
    rfl
  rw [hagain.rereadOrder_numbered objective_reread, hdeclared, hagain.names_numbered,
    names_reread]

theorem WellFormed.finite_reread
    (h : model.WellFormed) (objective : Objective) (declaredNames : Bool)
    (hfinite : ∀ entry ∈ model.constraints, entry.effectiveRhs.isFinite = true) :
    ∀ entry ∈ (model.reread objective declaredNames).constraints,
      entry.effectiveRhs.isFinite = true := by
  intro other hother
  rw [h.constraints_reread] at hother
  obtain ⟨⟨entry, index⟩, hmem, rfl⟩ := List.mem_map.mp hother
  have hrhs := hfinite entry (List.mem_of_getElem? (List.mem_zipIdx_iff_getElem?.mp hmem))
  have hdrop : entry.effectiveRhs.dropZeroSign.isFinite = true :=
    (Binary64.isFinite_dropZeroSign _).trans hrhs
  rw [← Binary64.isFinite_dropZeroSign]
  exact (congrArg Binary64.isFinite (Binary64.dropZeroSign_sub_zero hdrop)).trans
    ((Binary64.isFinite_dropZeroSign _).trans hdrop)

/-- Read in the order in which variables are numbered, a model has everything numbered. -/
theorem WellFormed.numbered_reread
    (h : model.WellFormed) (horder : model.rereadOrder objective false = model.names false) :
    (model.reread objective false).Numbered := by
  constructor
  case vars =>
    intro index other hother
    rw [vars_reread, horder, List.getElem?_map] at hother
    obtain ⟨name, hname, rfl⟩ := Option.map_eq_some_iff.mp hother
    rw [Model.names, List.getElem?_map, List.getElem?_zipIdx, Option.map_map] at hname
    obtain ⟨entry, hentry, rfl⟩ := Option.map_eq_some_iff.mp hname
    simp only [Function.comp_apply, Nat.zero_add, Document.variableOf, Document.variableAt]
    exact (h.isValid_variableName false hentry).ofText_text
  case constraints =>
    intro index other hother
    rw [h.constraints_reread, List.getElem?_map, List.getElem?_zipIdx, Option.map_map] at hother
    obtain ⟨entry, -, rfl⟩ := Option.map_eq_some_iff.mp hother
    rw [Function.comp_apply, Nat.zero_add]
    rfl

/-! ## Writing what is numbered -/

theorem Numbered.nameOf_eq
    (h : model.Numbered) (id : VariableId) : model.nameOf true id = model.nameOf false id := by
  rw [nameOf, nameOf]
  split
  · next entry hentry =>
      rw [variableName, variableName, if_pos rfl, if_neg Bool.false_ne_true,
        h.vars id.index entry hentry]
  · rfl

theorem Numbered.variableName_eq
    (h : model.Numbered) {index : Nat} {entry : Variable}
    (hentry : model.vars[index]? = some entry) :
    variableName true entry index = variableName false entry index :=
  h.vars index entry hentry

theorem Numbered.namesOfKind_eq
    (h : model.Numbered) (kind : VariableKind) :
    model.namesOfKind true kind = model.namesOfKind false kind := by
  apply List.filterMap_congr
  rintro ⟨entry, index⟩ hmem
  dsimp only
  rw [h.variableName_eq (List.mem_zipIdx_iff_getElem?.mp hmem)]

/-- A numbered model denotes the same document with declared names as with numbers. -/
theorem Numbered.documentWith_eq
    (h : model.Numbered) (objective : Objective) (signature : Option String) :
    model.documentWith objective true signature =
      model.documentWith objective false signature := by
  have hterms (expr : LinearExpr) :
      model.writtenTerms true expr = model.writtenTerms false expr := by
    simp only [writtenTerms, h.nameOf_eq]
  refine (Document.mk.injEq ..).mpr
    ⟨rfl, ?objective, ?rows, ?bounds, h.namesOfKind_eq .integer, h.namesOfKind_eq .binary⟩
  case objective => rw [hterms]
  case rows =>
    apply List.map_congr_left
    rintro ⟨entry, index⟩ hmem
    have hname : constraintName true entry index = constraintName false entry index :=
      h.constraints index entry (List.mem_zipIdx_iff_getElem?.mp hmem)
    dsimp only
    rw [writtenRow, writtenRow, hname, hterms]
  case bounds =>
    apply List.filterMap_congr
    rintro ⟨entry, index⟩ hmem
    dsimp only
    rw [writtenBound?, writtenBound?, h.variableName_eq (List.mem_zipIdx_iff_getElem?.mp hmem)]

/-- In a numbered model a numbered name refers to the place with this number. -/
theorem Numbered.lookup_eq_ok_iff
    (h : model.Numbered) {index : Nat} {id : VariableId} :
    model.columns.lookup (.numbered 'x' index) = .ok id ↔
      id = ⟨index⟩ ∧ index < model.vars.length := by
  rw [VariableTable.lookup_eq_ok_iff]
  constructor
  · rintro ⟨entry, hentry, hname⟩
    rw [h.vars id.index entry hentry] at hname
    obtain rfl := Name.numbered_injective hname
    exact ⟨rfl, (List.getElem?_eq_some_iff.mp hentry).1⟩
  · rintro ⟨rfl, hlt⟩
    have hentry := List.getElem?_eq_getElem hlt
    exact ⟨_, hentry, h.vars index _ hentry⟩

theorem Numbered.lookup?_eq_some_iff
    (h : model.Numbered) {index : Nat} {id : ConstraintId} :
    model.rows.lookup? (.numbered 'c' index) = some id ↔
      id = ⟨index⟩ ∧ index < model.constraints.length := by
  rw [Table.lookup?_eq_some_iff ConstraintId.index_injective]
  constructor
  · rintro ⟨entry, hentry, hname⟩
    rw [h.constraints id.index entry hentry] at hname
    obtain rfl := Name.numbered_injective hname
    exact ⟨rfl, (List.getElem?_eq_some_iff.mp hentry).1⟩
  · rintro ⟨rfl, hlt⟩
    have hentry := List.getElem?_eq_getElem hlt
    exact ⟨_, hentry, h.constraints index _ hentry⟩

/-- A numbered model that is read from a text with numbers is written as this text. -/
theorem WellFormed.body_numbered
    (h : model.WellFormed) (hissues : model.issues = [])
    (hfinite : ∀ entry ∈ model.constraints, entry.effectiveRhs.isFinite = true)
    (hobjective : model.objective = some objective)
    (hagain : (model.reread objective false).WellFormed)
    (hnumbered : (model.reread objective false).Numbered)
    {options : WriteOptions} (hnames : options.declaredNames = false) :
    (model.reread objective false).body options = model.body options := by
  have hterms := (h.issues_eq_nil_iff.mp hissues).2
  have htermsAgain := (hagain.issues_eq_nil_iff.mp (h.issues_reread hissues hagain)).2
  rw [h.body_eq hobjective hterms options none,
    hagain.body_eq objective_reread htermsAgain options none, hnames,
    ← hnumbered.documentWith_eq, h.documentWith_reread hobjective hfinite]

/-! ## Writing twice -/

/--
Numbered names settle after one rewrite, if both texts can be held.  The model that is read
from the second text is written as the second text again, and its numbered names refer to
the places with these numbers.
-/
theorem Reachable.numbered_write_settles
    (h : model.Reachable) (hissues : model.issues = [])
    (hfinite : ∀ entry ∈ model.constraints, entry.effectiveRhs.isFinite = true)
    {options : WriteOptions} (hnames : options.declaredNames = false)
    (hfits : model.FitsStorage options) :
    ∃ text first, model.write options = .ok text ∧ read text = .ok first ∧
      (first.FitsStorage options → ∃ again second,
        first.write options = .ok again ∧ read again = .ok second ∧
        second.write options = .ok again ∧
        (∀ index id, second.columns.lookup (.numbered 'x' index) = .ok id ↔
          id = ⟨index⟩ ∧ index < second.vars.length) ∧
        ∀ index id, second.rows.lookup? (.numbered 'c' index) = some id ↔
          id = ⟨index⟩ ∧ index < second.constraints.length) := by
  have hwellFormed := h.wellFormed
  obtain ⟨objective, hobjective⟩ := hwellFormed.exists_objective hissues
  obtain ⟨text, hwrite⟩ := hwellFormed.exists_write hissues hfits
  have hread := hwellFormed.read_eq_reread hfinite hwrite hobjective
  rw [hnames] at hread
  refine ⟨text, _, hwrite, hread, fun hfitsFirst => ?_⟩
  -- The model that is read first has its variables in the order in which they are numbered.
  have hfirst := (reachable_read hread).wellFormed
  have hfirstIssues := hwellFormed.issues_reread hissues hfirst
  have hfirstFinite := hwellFormed.finite_reread objective false hfinite
  have horder := hwellFormed.rereadOrder_reread hobjective hfinite hfirst
  obtain ⟨body, -, hbody, hwriteFirst, -, -⟩ :=
    hfirst.exists_parse_write hfirstIssues hfitsFirst objective_reread
  have hreadFirst := hfirst.read_eq_reread hfirstFinite hwriteFirst objective_reread
  rw [hnames] at hreadFirst
  -- The one that is read second is numbered, so it denotes the document that it is read from.
  have hsecond := (reachable_read hreadFirst).wellFormed
  have hnumbered := hfirst.numbered_reread horder
  have hbodySecond := hfirst.body_numbered hfirstIssues hfirstFinite objective_reread hsecond
    hnumbered hnames
  refine ⟨_, _, hwriteFirst, hreadFirst, ?_, ?_, ?_⟩
  · exact hfitsFirst.write_congr hfirstIssues (hfirst.issues_reread hfirstIssues hsecond) hbody
      (hbodySecond.trans hbody)
  · exact fun index id => hnumbered.lookup_eq_ok_iff
  · exact fun index id => hnumbered.lookup?_eq_some_iff

/-- The diet as it is read back with numbered names. -/
def renumberedDiet : Model :=
  diet.reread ⟨.minimize, (LinearExpr.var ⟨3⟩).scale two⟩ false

theorem renumberedDiet_fitsStorage : renumberedDiet.FitsStorage numbered :=
  fitsStorage_of_body (by decide) (by decide +kernel)

theorem numbered_write_settles_diet :
    diet.Reachable ∧ diet.issues = [] ∧
      (∀ entry ∈ diet.constraints, entry.effectiveRhs.isFinite = true) ∧
      numbered.declaredNames = false ∧ diet.FitsStorage numbered ∧
      renumberedDiet.FitsStorage numbered ∧
      ∃ text again second, diet.write numbered = .ok text ∧ read text = .ok renumberedDiet ∧
        renumberedDiet.write numbered = .ok again ∧ read again = .ok second ∧
        second.write numbered = .ok again := by
  obtain ⟨text, first, hwrite, hread, hsettles⟩ := Reachable.numbered_write_settles
    (reachable_run _) diet_issues diet_finite rfl diet_fitsStorage_numbered
  have hobjective : diet.objective = some ⟨.minimize, (LinearExpr.var ⟨3⟩).scale two⟩ := by
    decide +kernel
  have hfirst : read text = .ok renumberedDiet :=
    (reachable_run _).wellFormed.read_eq_reread diet_finite hwrite hobjective
  obtain rfl : first = renumberedDiet := Except.ok.inj (hread.symm.trans hfirst)
  obtain ⟨again, second, hwriteFirst, hreadFirst, hwriteSecond, -⟩ :=
    hsettles renumberedDiet_fitsStorage
  exact ⟨reachable_run _, diet_issues, diet_finite, rfl, diet_fitsStorage_numbered,
    renumberedDiet_fitsStorage, text, again, second, hwrite, hread, hwriteFirst, hreadFirst,
    hwriteSecond⟩

/-- With an indentation that no text can hold there is not even a first text. -/
theorem not_forall_numbered_write_settles :
    ¬∀ (model : Model) (options : WriteOptions), model.Reachable → model.issues = [] →
      (∀ entry ∈ model.constraints, entry.effectiveRhs.isFinite = true) →
      options.declaredNames = false →
      ∃ text first again second, model.write options = .ok text ∧ read text = .ok first ∧
        first.write options = .ok again ∧ read again = .ok second ∧
        second.write options = .ok again := by
  intro hall
  obtain ⟨text, first, again, second, hwrite, -⟩ :=
    hall diet { tooWide with declaredNames := false } (reachable_run _) diet_issues diet_finite rfl
  rw [write_eq_overflow diet_issues (by decide)] at hwrite
  cases hwrite

end Model

end LinearProgram
