import LinearProgram.Model.Printer
import LinearProgram.Proofs.Decimal.Written
import LinearProgram.Proofs.Model.Reachable

/-!
# Written names

Variables and constraints are written with the names that they were declared with, or
with a letter and their number.  In both cases the written names are valid, and different
entries have different ones, so a reader can tell entries apart by their names.
-/

namespace LinearProgram

namespace Name

/-- A letter and a number. -/
def numbered (letter : Char) (index : Nat) : Name :=
  .flat (String.ofList (letter :: Nat.toDigits 10 index))

@[simp] theorem chars_flat (template : String) : (flat template).chars = template.toList :=
  if_pos rfl

theorem chars_numbered (letter : Char) (index : Nat) :
    (numbered letter index).chars = letter :: Nat.toDigits 10 index := by
  rw [numbered, chars_flat, String.toList_ofList]

theorem isAlphanum_of_isDigit {c : Char} (h : c.isDigit = true) : c.isAlphanum = true := by
  rw [Char.isAlphanum, h, Bool.or_true]

/-- The letters that numbered names begin with: of variables, of constraints and of rows. -/
def numberedLetters : List Char :=
  ['x', 'c', 'R']

theorem isValid_numbered {letter : Char} (hletter : letter ∈ numberedLetters) (index : Nat) :
    (numbered letter index).IsValid := by
  have hchars : (numbered letter index).template.toList = letter :: Nat.toDigits 10 index :=
    String.toList_ofList
  obtain ⟨hstarts, htemplate, hwords⟩ : (letter.isDigit = false ∧ letter ≠ '.') ∧
      isTemplateChar letter = true ∧
      ∀ word ∈ reservedWords, word.toList.head? ≠ some letter.toLower := by
    rw [numberedLetters, List.mem_cons, List.mem_cons, List.mem_singleton] at hletter
    rcases hletter with rfl | rfl | rfl <;> decide
  constructor
  case template_starts => exact ⟨letter, Nat.toDigits 10 index, hchars, hstarts⟩
  case template_chars =>
    intro c hc
    rw [hchars] at hc
    rcases List.mem_cons.mp hc with rfl | hdigit
    · exact htemplate
    · rw [isTemplateChar, isAlphanum_of_isDigit (isDigit_of_mem_toDigits hdigit), Bool.true_or]
  case not_reserved =>
    intro _
    have hhead : (asciiLower (numbered letter index).template).toList.head? =
        some letter.toLower := by
      rw [asciiLower, hchars, String.toList_ofList]
      rfl
    rw [isReserved, List.contains_eq_mem]
    exact decide_eq_false fun hmem => hwords _ hmem hhead
  case part_ne_nil => exact fun part hpart => absurd hpart List.not_mem_nil
  case part_chars => exact fun part hpart => absurd hpart List.not_mem_nil

theorem toDigits_injective {m n : Nat} (h : Nat.toDigits 10 m = Nat.toDigits 10 n) : m = n := by
  rw [← digitsValue_toDigits m, ← digitsValue_toDigits n, h]

theorem numbered_injective {letter : Char} {m n : Nat}
    (h : numbered letter m = numbered letter n) : m = n := by
  have hchars := congrArg chars h
  rw [chars_numbered, chars_numbered] at hchars
  exact toDigits_injective (List.cons.inj hchars).2

end Name

namespace Model

/-- The name under which a variable is written. -/
def variableName (declaredNames : Bool) (entry : Variable) (index : Nat) : Name :=
  if declaredNames then entry.name else .numbered 'x' index

/-- The name under which a constraint is written. -/
def constraintName (declaredNames : Bool) (entry : Constraint) (index : Nat) : Name :=
  if declaredNames then entry.name else .numbered 'c' index

theorem variableLabel_eq (options : WriteOptions) (entry : Variable) :
    variableLabel options entry =
      (variableName options.declaredNames entry entry.id.index).chars := by
  rw [variableLabel, variableName]
  split
  · rfl
  · rw [Name.chars_numbered]

theorem constraintLabel_eq (options : WriteOptions) (entry : Constraint) :
    constraintLabel options entry =
      (constraintName options.declaredNames entry entry.id.index).chars := by
  rw [constraintLabel, constraintName]
  split
  · rfl
  · rw [Name.chars_numbered]

variable {model : Model}

theorem WellFormed.isValid_variableName (h : model.WellFormed) (declaredNames : Bool)
    {index : Nat} {entry : Variable} (hentry : model.vars[index]? = some entry) :
    (variableName declaredNames entry index).IsValid := by
  rw [variableName]
  split
  · exact h.names entry (List.mem_of_getElem? hentry)
  · exact Name.isValid_numbered (by decide) index

theorem WellFormed.isValid_constraintName (h : model.WellFormed) (declaredNames : Bool)
    {index : Nat} {entry : Constraint} (hentry : model.constraints[index]? = some entry) :
    (constraintName declaredNames entry index).IsValid := by
  rw [constraintName]
  split
  · exact h.rowNames entry (List.mem_of_getElem? hentry)
  · exact Name.isValid_numbered (by decide) index

theorem eq_of_nodup_map {α β : Type} {entries : List α} {f : α → β} (h : (entries.map f).Nodup)
    {i j : Nat} {a b : α} (ha : entries[i]? = some a) (hb : entries[j]? = some b)
    (heq : f a = f b) : i = j := by
  have hlt : i < (entries.map f).length := by
    rw [List.length_map]
    exact (List.getElem?_eq_some_iff.mp ha).1
  refine (List.getElem?_inj hlt h).mp ?_
  rw [List.getElem?_map, List.getElem?_map, ha, hb, Option.map_some, Option.map_some, heq]

/-- Entries that are told apart by what is made of them and of their places. -/
theorem nodup_zipIdx_map {α β : Type} {entries : List α} {f : α × Nat → β}
    (h : ∀ i j a b, entries[i]? = some a → entries[j]? = some b → f (a, i) = f (b, j) → i = j) :
    (entries.zipIdx.map f).Nodup := by
  have hplaces : (entries.zipIdx.map Prod.snd).Nodup := by
    rw [List.zipIdx_map_snd]
    exact List.nodup_range'
  refine (hplaces.of_map _).map_on ?_
  rintro ⟨a, i⟩ ha ⟨b, j⟩ hb heq
  have hai : entries[i]? = some a := List.mem_zipIdx_iff_getElem?.mp ha
  have hbj : entries[j]? = some b := List.mem_zipIdx_iff_getElem?.mp hb
  obtain rfl := h i j a b hai hbj heq
  rw [Option.some.inj (hai.symm.trans hbj)]

/-- Different variables are written under different names. -/
theorem WellFormed.variableName_injective (h : model.WellFormed) {declaredNames : Bool}
    {i j : Nat} {a b : Variable} (ha : model.vars[i]? = some a) (hb : model.vars[j]? = some b)
    (heq : variableName declaredNames a i = variableName declaredNames b j) : i = j := by
  cases declaredNames with
  | true => exact eq_of_nodup_map h.distinct ha hb heq
  | false => exact Name.numbered_injective heq

theorem WellFormed.constraintName_injective (h : model.WellFormed) {declaredNames : Bool}
    {i j : Nat} {a b : Constraint} (ha : model.constraints[i]? = some a)
    (hb : model.constraints[j]? = some b)
    (heq : constraintName declaredNames a i = constraintName declaredNames b j) : i = j := by
  cases declaredNames with
  | true => exact eq_of_nodup_map h.rowDistinct ha hb heq
  | false => exact Name.numbered_injective heq

end Model

end LinearProgram
