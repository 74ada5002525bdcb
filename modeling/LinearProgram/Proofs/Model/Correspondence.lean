import LinearProgram.Proofs.Model.Reread
import Mathlib.Data.Set.Function

/-!
# The linear program of a model that is read back

Reading back permutes variables and leaves out those that are never mentioned.  Apart
from that it keeps the linear program: the mentioned variables are matched one to one
with the variables of the model that is read, their names are the written ones, kinds
and bounds are the same, and the objective and the constraints have the same terms in
the same order.  The main statement is `WellFormed.corresponds_reread`.
-/

namespace LinearProgram

namespace Model

/-- Terms whose variables have moved to other places. -/
def movedTerms (place : Nat → Nat) (expr : LinearExpr) : List (VariableId × Binary64) :=
  expr.terms.map fun term => (⟨place term.1.index⟩, term.2)

/-- The same linear program, variables having moved to other places. -/
structure Corresponds
    (model : Model) (declaredNames : Bool) (again : Model) (place : Nat → Nat) : Prop where
  bijective : Set.BijOn place {index | model.Mentions index} {index | index < again.vars.length}
  vars : ∀ index entry, model.vars[index]? = some entry → model.Mentions index →
    ∃ other, again.vars[place index]? = some other ∧
      other.name = variableName declaredNames entry index ∧ other.kind = entry.kind ∧
      other.bounds.lower.numEq entry.bounds.lower = true ∧
      other.bounds.upper.numEq entry.bounds.upper = true
  unmentioned : ∀ index entry, model.vars[index]? = some entry →
    (¬model.Mentions index ↔
      ¬model.Uses index ∧ entry.kind = .continuous ∧ entry.bounds.isDefault = true)
  objective : ∃ objective other, model.objective = some objective ∧
    again.objective = some other ∧ other.sense = objective.sense ∧
    other.expr.terms = movedTerms place objective.expr ∧
    other.expr.constant.numEq objective.expr.constant = true
  length : again.constraints.length = model.constraints.length
  constraints : ∀ index entry, model.constraints[index]? = some entry →
    ∃ other, again.constraints[index]? = some other ∧
      other.name = constraintName declaredNames entry index ∧
      other.expr.terms = movedTerms place entry.expr ∧ other.relation = entry.relation ∧
      other.expr.constant = .zero ∧ other.rhs.numEq entry.effectiveRhs = true

variable {model : Model} {objective : Objective} {declaredNames : Bool}

/-- Whatever is mentioned is declared. -/
theorem WellFormed.exists_of_mentions
    (h : model.WellFormed) {index : Nat} (hmentions : model.Mentions index) :
    ∃ entry, model.vars[index]? = some entry := by
  rcases hmentions with (⟨objective, hobjective, hid⟩ | ⟨row, hrow, hid⟩) | ⟨entry, hentry, -⟩
  · exact (h.objective objective hobjective).exists_entry hid
  · exact (h.rows row hrow).exists_entry hid
  · exact ⟨entry, hentry⟩

theorem WellFormed.mapsTo_rereadPlace
    (h : model.WellFormed) (hobjective : model.objective = some objective)
    (declaredNames : Bool) :
    Set.MapsTo (model.rereadPlace objective declaredNames) {index | model.Mentions index}
      {index | index < (model.reread objective declaredNames).vars.length} := by
  intro index hmentions
  obtain ⟨entry, hentry⟩ := h.exists_of_mentions hmentions
  obtain ⟨hlt, -⟩ := List.getElem?_eq_some_iff.mp
    (h.getElem?_reread hobjective hentry hmentions)
  exact hlt

theorem WellFormed.injOn_rereadPlace
    (h : model.WellFormed) (hobjective : model.objective = some objective)
    (declaredNames : Bool) :
    Set.InjOn (model.rereadPlace objective declaredNames) {index | model.Mentions index} := by
  intro i hi j hj heq
  obtain ⟨a, ha⟩ := h.exists_of_mentions hi
  obtain ⟨b, hb⟩ := h.exists_of_mentions hj
  have hmem := h.nameOf_mem_rereadOrder declaredNames hobjective ha hi
  have hname := (List.idxOf_inj hmem).mp heq
  have hanme : model.nameOf declaredNames ⟨i⟩ = (variableName declaredNames a i).text :=
    nameOf_eq ha
  have hbname : model.nameOf declaredNames ⟨j⟩ = (variableName declaredNames b j).text :=
    nameOf_eq hb
  rw [hanme, hbname] at hname
  exact (h.eq_of_text_variableName ha hb hname).1

theorem WellFormed.surjOn_rereadPlace
    (h : model.WellFormed) (hobjective : model.objective = some objective)
    (declaredNames : Bool) :
    Set.SurjOn (model.rereadPlace objective declaredNames) {index | model.Mentions index}
      {index | index < (model.reread objective declaredNames).vars.length} := by
  intro place hplace
  have hlt : place < (model.rereadOrder objective declaredNames).length := by
    have hlength : (model.reread objective declaredNames).vars.length =
        (model.rereadOrder objective declaredNames).length := by
      rw [vars_reread, List.length_map]
    exact hlength ▸ hplace
  have hmention : (model.rereadOrder objective declaredNames)[place] ∈
      (model.documentWith objective declaredNames none).mentions :=
    (Document.mem_declarationOrder _).mp (List.getElem_mem hlt)
  obtain ⟨index, entry, hentry, hname⟩ := h.exists_of_mem_mentions hobjective hmention
  have hmentions : model.Mentions index := by
    rw [← hname] at hmention
    exact (h.mem_mentions_iff hobjective hentry).mp hmention
  refine ⟨index, hmentions, ?_⟩
  rw [rereadPlace, nameOf_eq hentry, hname]
  exact (Document.nodup_declarationOrder _).idxOf_getElem place hlt

theorem mentions_iff_of_getElem?
    {index : Nat} {entry : Variable} (hentry : model.vars[index]? = some entry) :
    ¬model.Mentions index ↔
      ¬model.Uses index ∧ entry.kind = .continuous ∧ entry.bounds.isDefault = true := by
  rw [Mentions, not_or]
  apply and_congr_right
  intro _
  simp only [hentry, Option.some.injEq, exists_eq_left']
  cases entry.kind <;> simp

/-- What is read back is the same linear program. -/
theorem WellFormed.corresponds_reread
    (h : model.WellFormed) (hobjective : model.objective = some objective)
    (hfinite : ∀ entry ∈ model.constraints, entry.effectiveRhs.isFinite = true)
    (declaredNames : Bool) :
    Corresponds model declaredNames (model.reread objective declaredNames)
      (model.rereadPlace objective declaredNames) := by
  have hconstraints := h.constraints_reread objective declaredNames
  constructor
  case bijective =>
    exact ⟨h.mapsTo_rereadPlace hobjective declaredNames,
      h.injOn_rereadPlace hobjective declaredNames,
      h.surjOn_rereadPlace hobjective declaredNames⟩
  case vars =>
    intro index entry hentry hmentions
    have hvalid := h.bounds entry (List.mem_of_getElem? hentry)
    exact ⟨_, h.getElem?_reread hobjective hentry hmentions, rfl, rfl,
      Bounds.numEq_dropZeroSigns hvalid⟩
  case unmentioned =>
    intro index entry hentry
    exact mentions_iff_of_getElem? hentry
  case objective =>
    have hconstant := (h.objective objective hobjective).constant
    exact ⟨objective, _, hobjective, objective_reread, rfl, terms_resolved_writtenTerms _ _,
      Binary64.numEq_dropZeroSign (Binary64.isNaN_of_isFinite hconstant)⟩
  case length => rw [hconstraints, List.length_map, List.length_zipIdx]
  case constraints =>
    intro index entry hentry
    have hrhs := hfinite entry (List.mem_of_getElem? hentry)
    refine ⟨model.rereadConstraint objective declaredNames (entry, index), ?_, rfl,
      terms_resolved_writtenTerms _ _, rfl, rfl,
      Binary64.numEq_dropZeroSign (Binary64.isNaN_of_isFinite hrhs)⟩
    rw [hconstraints, List.getElem?_map, List.getElem?_zipIdx, hentry]
    simp

end Model

end LinearProgram
