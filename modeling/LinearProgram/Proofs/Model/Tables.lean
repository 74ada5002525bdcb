import LinearProgram.Model.Basic
import LinearProgram.Proofs.Name.Spelling

/-!
# Tables with names and ids

The entries of a table and its map from names stay in step: a name leads to an id exactly
if the entry with this id has the name, and so the names of a table differ.  An operation
on a table either adds one entry at the end, with the next place as its id, or leaves the
table as it is and says why.
-/

namespace LinearProgram

theorem completed_eq_ok_iff {σ ε α : Type} {outcome : σ × Except ε α} {found : σ × α} :
    completed outcome = .ok found ↔ outcome = (found.1, .ok found.2) := by
  obtain ⟨state, error | value⟩ := outcome
  · simp [completed]
  · simp [completed, Prod.ext_iff]

theorem completed_eq_error_iff {σ ε α : Type} {outcome : σ × Except ε α} {error : ε} :
    completed outcome = .error error ↔ outcome.2 = .error error := by
  obtain ⟨state, failure | value⟩ := outcome <;> simp [completed]

theorem VariableId.index_injective : Function.Injective VariableId.index :=
  fun ⟨_⟩ ⟨_⟩ h => congrArg _ h

theorem ConstraintId.index_injective : Function.Injective ConstraintId.index :=
  fun ⟨_⟩ ⟨_⟩ h => congrArg _ h

namespace Table

variable {α ι : Type} {nameOf : α → Name} {idOf : α → ι} {indexOf : ι → Nat}
  {table : Table α ι nameOf idOf indexOf} {entry : α} {name : Name} {id : ι}

/-! ## Names and ids -/

theorem exists_lookup?_of_mem (h : name ∈ table.entries.map nameOf) :
    ∃ id, table.lookup? name = some id := by
  obtain ⟨entry, hentry, rfl⟩ := List.mem_map.mp h
  exact ⟨idOf entry, table.found entry hentry⟩

/-- The map leads from a name somewhere exactly if there is an entry of this name. -/
theorem lookup?_isSome_iff : (table.lookup? name).isSome = true ↔ name ∈ table.entries.map nameOf :=
  ⟨fun h => (Option.isSome_iff_exists.mp h).elim (table.known name),
    fun h => Option.isSome_iff_exists.mpr (exists_lookup?_of_mem h)⟩

theorem lookup?_eq_none_iff : table.lookup? name = none ↔ name ∉ table.entries.map nameOf := by
  rw [← lookup?_isSome_iff, Option.not_isSome_iff_eq_none]

/-- A name leads to an id exactly if the entry with this id has the name. -/
theorem lookup?_eq_some_iff (hindex : Function.Injective indexOf) :
    table.lookup? name = some id ↔ ∃ entry, table.get? id = some entry ∧ nameOf entry = name := by
  constructor
  · intro hid
    obtain ⟨entry, hentry, rfl⟩ := List.mem_map.mp (table.known name id hid)
    obtain ⟨index, hplace⟩ := List.mem_iff_getElem?.mp hentry
    have hsame : idOf entry = id :=
      Option.some.inj ((table.found entry hentry).symm.trans hid)
    refine ⟨entry, ?_, rfl⟩
    rw [get?, ← hsame, table.placed index entry hplace, hplace]
  · rintro ⟨entry, hentry, rfl⟩
    have hsame : idOf entry = id := hindex (table.placed _ entry hentry)
    rw [← hsame]
    exact table.found entry (List.mem_of_getElem? hentry)

/-- Entries with one name have one id, and so they have one place. -/
theorem nodup_names (table : Table α ι nameOf idOf indexOf) :
    (table.entries.map nameOf).Nodup := by
  rw [List.Nodup, List.pairwise_map, List.pairwise_iff_getElem]
  intro i j hi hj hij hnames
  have hids : idOf table.entries[i] = idOf table.entries[j] := by
    have hfound := table.found _ (List.getElem_mem hi)
    rw [hnames, table.found _ (List.getElem_mem hj)] at hfound
    exact (Option.some.inj hfound).symm
  have hplaces := congrArg indexOf hids
  rw [table.placed i _ (List.getElem?_eq_getElem hi),
    table.placed j _ (List.getElem?_eq_getElem hj)] at hplaces
  omega

/-- The entry at a place has the id of this place. -/
theorem idOf_eq (hindex : Function.Injective indexOf) {index : Nat}
    (hentry : table.entries[index]? = some entry) (hid : indexOf id = index) : idOf entry = id :=
  hindex ((table.placed index entry hentry).trans hid.symm)

/-- An entry that is kept in its place is found there by its id, as before. -/
theorem get?_of_isPrefix {later : Table α ι nameOf idOf indexOf}
    (h : table.entries <+: later.entries) (hentry : table.get? id = some entry) :
    later.get? id = some entry := by
  obtain ⟨hlt, -⟩ := List.getElem?_eq_some_iff.mp hentry
  obtain ⟨more, hmore⟩ := h
  rw [get?, ← hmore, List.getElem?_append_left hlt]
  exact hentry

/-- The places of the entries are those of their ids. -/
theorem zipIdx_entries (table : Table α ι nameOf idOf indexOf) :
    table.entries.zipIdx = table.entries.map fun entry => (entry, indexOf (idOf entry)) := by
  refine List.ext_getElem (by rw [List.length_zipIdx, List.length_map]) fun index hleft hright => ?_
  have hlt : index < table.entries.length := by simpa using hright
  rw [List.getElem_zipIdx, List.getElem_map,
    table.placed index _ (List.getElem?_eq_getElem hlt), Nat.zero_add]

/-! ## New entries -/

theorem entries_insert (hplace : indexOf (idOf entry) = table.entries.length)
    (hfresh : nameOf entry ∉ table.entries.map nameOf) :
    (table.insert entry hplace).entries = table.entries ++ [entry] := by
  rw [insert, dif_pos (lookup?_eq_none_iff.mpr hfresh)]

theorem entries_prefix_insert (hplace : indexOf (idOf entry) = table.entries.length) :
    table.entries <+: (table.insert entry hplace).entries := by
  rw [insert]
  split
  · exact List.prefix_append _ _
  · exact List.prefix_refl _

/-- The table with an entry added for each of some items, which is made for its place. -/
def insertAll {β : Type} (make : Nat → β → α)
    (hplace : ∀ index item, indexOf (idOf (make index item)) = index)
    (table : Table α ι nameOf idOf indexOf) (items : List β) : Table α ι nameOf idOf indexOf :=
  items.foldl (fun table item => table.insert (make table.entries.length item) (hplace _ item))
    table

/-- Items whose names are new and differ all get their entries, in order. -/
theorem entries_insertAll {β : Type} (table : Table α ι nameOf idOf indexOf)
    (make : Nat → β → α) (key : β → Name)
    (hplace : ∀ index item, indexOf (idOf (make index item)) = index)
    (hkey : ∀ index item, nameOf (make index item) = key item) {items : List β}
    (hfresh : (table.entries.map nameOf ++ items.map key).Nodup) :
    (insertAll make hplace table items).entries =
      table.entries ++ items.mapIdx fun index item => make (table.entries.length + index) item := by
  induction items generalizing table with
  | nil => exact (List.append_nil _).symm
  | cons item items ih =>
      let next := table.insert (make table.entries.length item) (hplace _ item)
      have hnew : nameOf (make table.entries.length item) ∉ table.entries.map nameOf := by
        rw [hkey]
        intro hmem
        exact (List.nodup_append.mp hfresh).2.2 _ hmem _ List.mem_cons_self rfl
      have hentries : next.entries = table.entries ++ [make table.entries.length item] :=
        entries_insert _ hnew
      have hlater : (next.entries.map nameOf ++ items.map key).Nodup := by
        rw [hentries, List.map_append, List.map_singleton, hkey, List.append_assoc]
        exact hfresh
      have hrest := ih next hlater
      rw [hentries, List.length_append, List.length_singleton, List.append_assoc] at hrest
      simp only [Nat.add_assoc, Nat.add_comm 1] at hrest
      rw [List.mapIdx_cons, Nat.add_zero]
      exact hrest

/-- Only the entries that are made count. -/
theorem insertAll_congr {β : Type} {make make' : Nat → β → α}
    (hplace : ∀ index item, indexOf (idOf (make index item)) = index)
    (hplace' : ∀ index item, indexOf (idOf (make' index item)) = index) {items : List β}
    (hsame : ∀ item ∈ items, ∀ index, make index item = make' index item) :
    insertAll make hplace table items = insertAll make' hplace' table items := by
  induction items generalizing table with
  | nil => rfl
  | cons item items ih =>
      obtain ⟨hhere, hlater⟩ := List.forall_mem_cons.mp hsame
      have hinsert : table.insert (make table.entries.length item) (hplace _ item) =
          table.insert (make' table.entries.length item) (hplace' _ item) := by
        simp only [hhere]
      have hrest := @ih (table.insert (make' table.entries.length item) (hplace' _ item)) hlater
      rw [insertAll, List.foldl_cons, hinsert]
      exact hrest

end Table

/-! ## Variables -/

namespace VariableTable

theorem lookup_eq_ok_iff {table : VariableTable} {name : Name} {id : VariableId} :
    table.lookup name = .ok id ↔ ∃ entry, table.get? id = some entry ∧ entry.name = name := by
  rw [← Table.lookup?_eq_some_iff VariableId.index_injective, lookup]
  cases table.lookup? name <;> simp

theorem lookup_eq_error {table : VariableTable} {name : Name}
    (h : name ∉ table.entries.map Variable.name) :
    table.lookup name = .error (.unknownVariable name.text) := by
  rw [lookup, Table.lookup?_eq_none_iff.mpr h]

end VariableTable

theorem Name.check_eq_ok_iff (name : Name) : name.check = .ok () ↔ name.IsValid := by
  rw [← name.fault?_eq_none_iff, Name.check]
  cases name.fault? <;> simp

namespace VariableTable

variable {table : VariableTable} {name : Name} {bounds : Bounds} {kind : VariableKind}

theorem checkNext_eq_ok_iff :
    table.checkNext name bounds kind = .ok () ↔
      name.IsValid ∧ name ∉ table.entries.map Variable.name ∧
        (boundsFor kind bounds).isValid = true ∧ table.entries.length < idCapacity := by
  rw [checkNext, ← Name.check_eq_ok_iff, ← Table.lookup?_isSome_iff, ← Nat.not_le]
  cases name.check with
  | error error => simp [bind, Except.bind]
  | ok done =>
      by_cases htaken : (table.lookup? name).isSome = true
      · simp [bind, Except.bind, htaken, throw, throwThe, MonadExceptOf.throw]
      by_cases hvalid : (boundsFor kind bounds).isValid = true
      · by_cases hfull : idCapacity ≤ table.entries.length <;>
          simp [bind, Except.bind, htaken, hvalid, hfull, throw, throwThe, MonadExceptOf.throw,
            pure, Except.pure]
      · simp [bind, Except.bind, htaken, hvalid, throw, throwThe, MonadExceptOf.throw]

/-- A declaration adds the next entry and gives its id, or changes nothing. -/
theorem declare_cases (table : VariableTable) (name : Name) (bounds : Bounds)
    (kind : VariableKind) :
    table.checkNext name bounds kind = .ok () ∧
        table.declare name bounds kind =
          (table.insert (table.nextEntry name bounds kind) rfl, .ok ⟨table.entries.length⟩) ∨
      table.checkNext name bounds kind ≠ .ok () ∧
        ∃ error, table.declare name bounds kind = (table, .error error) := by
  rw [declare]
  cases table.checkNext name bounds kind with
  | error error => exact .inr ⟨nofun, error, rfl⟩
  | ok done => exact .inl ⟨rfl, rfl⟩

end VariableTable

/-! ## Constraints -/

namespace ConstraintTable

variable {table : ConstraintTable} {name : Name}

theorem checkNext_eq_ok_iff :
    table.checkNext name = .ok () ↔
      name.IsValid ∧ name ∉ table.entries.map Constraint.name ∧
        table.entries.length < idCapacity := by
  rw [checkNext, ← Name.check_eq_ok_iff, ← Table.lookup?_isSome_iff, ← Nat.not_le]
  cases name.check with
  | error error => simp [bind, Except.bind]
  | ok done =>
      by_cases htaken : (table.lookup? name).isSome = true
      · simp [bind, Except.bind, htaken, throw, throwThe, MonadExceptOf.throw]
      by_cases hfull : idCapacity ≤ table.entries.length <;>
        simp [bind, Except.bind, htaken, hfull, throw, throwThe, MonadExceptOf.throw, pure,
          Except.pure]

/-- An addition adds the next entry and gives its id, or changes nothing. -/
theorem add_cases (table : ConstraintTable) (name : Name) (expr : LinearExpr)
    (relation : Relation) (rhs : Binary64) :
    table.checkNext name = .ok () ∧
        table.add name expr relation rhs =
          (table.insert (table.nextEntry name expr relation rhs) rfl,
            .ok ⟨table.entries.length⟩) ∨
      table.checkNext name ≠ .ok () ∧
        ∃ error, table.add name expr relation rhs = (table, .error error) := by
  rw [add]
  cases table.checkNext name with
  | error error => exact .inr ⟨nofun, error, rfl⟩
  | ok done => exact .inl ⟨rfl, rfl⟩

end ConstraintTable

end LinearProgram
