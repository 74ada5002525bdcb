import LinearProgram.Constraint

/-!
# Tables of variables and constraints

Entries are kept in order of declaration, and a map leads from their names to their ids.
Both grow together and never shrink: an entry is added at the end, with its place as its
id, after its name has been checked.  An operation that fails gives back the table that it
leaves, so that it can be said what that table is.
-/

namespace LinearProgram

/-- The number of entries that ids of 32 bits can tell apart. -/
def idCapacity : Nat :=
  4294967296

/-- A name that can be written in an LP file. -/
def Name.check (name : Name) : Except ModelError Unit :=
  match name.fault? with
  | some fault => .error (.invalidName name fault)
  | none => .ok ()

/-- The state after an operation that succeeds, with its value, or the error. -/
def completed {σ ε α : Type} : σ × Except ε α → Except ε (σ × α)
  | (state, .ok value) => .ok (state, value)
  | (_, .error error) => .error error

/--
Entries in order of declaration, and a map from their names to their ids.

Every entry has its place as its id, and the map leads from the name of each entry to its
id and from no other name anywhere, so that no two entries have the same name.
-/
structure Table (α ι : Type) (nameOf : α → Name) (idOf : α → ι) (indexOf : ι → Nat) where
  entries : List α
  byName : List (Name × ι)
  placed : ∀ (index : Nat) (entry : α), entries[index]? = some entry →
    indexOf (idOf entry) = index
  found : ∀ entry ∈ entries, byName.lookup (nameOf entry) = some (idOf entry)
  known : ∀ name id, byName.lookup name = some id → name ∈ entries.map nameOf
deriving DecidableEq

namespace Table

variable {α ι : Type} {nameOf : α → Name} {idOf : α → ι} {indexOf : ι → Nat}

def empty : Table α ι nameOf idOf indexOf where
  entries := []
  byName := []
  placed _ _ h := nomatch h
  found _ h := absurd h List.not_mem_nil
  known _ _ h := nomatch h

/-- The id that a name leads to. -/
def lookup? (table : Table α ι nameOf idOf indexOf) (name : Name) : Option ι :=
  table.byName.lookup name

def get? (table : Table α ι nameOf idOf indexOf) (id : ι) : Option α :=
  table.entries[indexOf id]?

def contains (table : Table α ι nameOf idOf indexOf) (id : ι) : Bool :=
  indexOf id < table.entries.length

theorem lookup_cons (names : List (Name × ι)) (new : Name) (id : ι) (name : Name) :
    List.lookup name ((new, id) :: names) = if name = new then some id else names.lookup name := by
  rw [List.lookup_cons]
  by_cases h : name = new
  · rw [if_pos h, beq_iff_eq.mpr h]
  · rw [if_neg h, beq_eq_false_iff_ne.mpr h]

section Growth

variable {table : Table α ι nameOf idOf indexOf} {entry : α}

theorem placed_append (hplace : indexOf (idOf entry) = table.entries.length) (index : Nat)
    (other : α) (hother : (table.entries ++ [entry])[index]? = some other) :
    indexOf (idOf other) = index := by
  rw [List.getElem?_append] at hother
  split at hother
  · exact table.placed index other hother
  · obtain ⟨hlast, rfl⟩ := List.getElem?_eq_some_iff.mp hother
    rw [List.length_singleton] at hlast
    rw [List.getElem_singleton, hplace]
    omega

theorem found_append (hfresh : table.lookup? (nameOf entry) = none) (other : α)
    (hother : other ∈ table.entries ++ [entry]) :
    List.lookup (nameOf other) ((nameOf entry, idOf entry) :: table.byName) =
      some (idOf other) := by
  rw [lookup_cons]
  rcases List.mem_append.mp hother with hold | hnew
  · have hfound := table.found other hold
    rw [if_neg, hfound]
    intro hsame
    rw [hsame] at hfound
    exact nomatch hfresh.symm.trans hfound
  · rw [List.mem_singleton.mp hnew, if_pos rfl]

theorem known_append (name : Name) (id : ι)
    (hid : List.lookup name ((nameOf entry, idOf entry) :: table.byName) = some id) :
    name ∈ (table.entries ++ [entry]).map nameOf := by
  rw [lookup_cons] at hid
  rw [List.map_append, List.mem_append]
  split at hid
  · next hsame => exact .inr (List.mem_singleton.mpr hsame)
  · exact .inl (table.known name id hid)

end Growth

/-- The table with an entry added at the end, unless its name is taken. -/
def insert (table : Table α ι nameOf idOf indexOf) (entry : α)
    (hplace : indexOf (idOf entry) = table.entries.length) : Table α ι nameOf idOf indexOf :=
  if hfresh : table.lookup? (nameOf entry) = none then
    { entries := table.entries ++ [entry]
      byName := (nameOf entry, idOf entry) :: table.byName
      placed := placed_append hplace
      found := found_append hfresh
      known := known_append }
  else table

end Table

/-- Variables in order of declaration. -/
abbrev VariableTable :=
  Table Variable VariableId Variable.name Variable.id VariableId.index

namespace VariableTable

/-- The variable of a name, or an error that mentions the name. -/
def lookup (table : VariableTable) (name : Name) : Except ModelError VariableId :=
  match table.lookup? name with
  | some id => .ok id
  | none => .error (.unknownVariable name.text)

/-- The ids of the variables of one kind. -/
def idsOfKind (table : VariableTable) (kind : VariableKind) : List VariableId :=
  (table.entries.filter fun entry => entry.kind = kind).map Variable.id

/-- The bounds that a variable of a kind gets; a binary one always has the unit interval. -/
def boundsFor (kind : VariableKind) (bounds : Bounds) : Bounds :=
  if kind = .binary then .unitInterval else bounds

/-- The entry that the next variable gets. -/
def nextEntry (table : VariableTable) (name : Name) (bounds : Bounds) (kind : VariableKind) :
    Variable :=
  ⟨⟨table.entries.length⟩, name, boundsFor kind bounds, kind⟩

/-- Whether a variable can be declared. -/
def checkNext (table : VariableTable) (name : Name) (bounds : Bounds) (kind : VariableKind) :
    Except ModelError Unit := do
  name.check
  if (table.lookup? name).isSome then
    throw (.duplicateName name)
  let bounds := boundsFor kind bounds
  if !bounds.isValid then
    throw (.invalidBounds name bounds)
  if idCapacity ≤ table.entries.length then
    throw (.capacityExceeded .vars)

/-- The table after a declaration, and the id of the new variable if it is one. -/
def declare (table : VariableTable) (name : Name) (bounds : Bounds) (kind : VariableKind) :
    VariableTable × Except ModelError VariableId :=
  match table.checkNext name bounds kind with
  | .error error => (table, .error error)
  | .ok () =>
    let entry := table.nextEntry name bounds kind
    (table.insert entry rfl, .ok entry.id)

end VariableTable

/-- Constraints in order of declaration. -/
abbrev ConstraintTable :=
  Table Constraint ConstraintId Constraint.name Constraint.id ConstraintId.index

namespace ConstraintTable

/-- The entry that the next constraint gets. -/
def nextEntry (table : ConstraintTable) (name : Name) (expr : LinearExpr) (relation : Relation)
    (rhs : Binary64) : Constraint :=
  ⟨⟨table.entries.length⟩, name, expr, relation, rhs⟩

/-- Whether a constraint of a name can be added. -/
def checkNext (table : ConstraintTable) (name : Name) : Except ModelError Unit := do
  name.check
  if (table.lookup? name).isSome then
    throw (.duplicateConstraintName name)
  if idCapacity ≤ table.entries.length then
    throw (.capacityExceeded .constraints)

/-- The table after an addition, and the id of the new constraint if there is one. -/
def add (table : ConstraintTable) (name : Name) (expr : LinearExpr) (relation : Relation)
    (rhs : Binary64) : ConstraintTable × Except ModelError ConstraintId :=
  match table.checkNext name with
  | .error error => (table, .error error)
  | .ok () =>
    let entry := table.nextEntry name expr relation rhs
    (table.insert entry rfl, .ok entry.id)

end ConstraintTable

end LinearProgram
