/-!
# Pieces of text

Cutting text at a separator, joining pieces with a separator, taking a known beginning
off, and making ASCII capitals small.  The main statement is `joinWith_splitOn`: cutting
and joining with the same separator gives the text back.
-/

namespace LinearProgram

/-- The text with its ASCII capitals made small. -/
def asciiLower (text : String) : String :=
  String.ofList (text.toList.map Char.toLower)

namespace Text

/-- The pieces of a text between the occurrences of a separator. -/
def splitOn (separator : Char) : List Char → List (List Char)
  | [] => [[]]
  | c :: cs =>
    if c = separator then [] :: splitOn separator cs
    else match splitOn separator cs with
      | [] => [[c]]
      | piece :: pieces => (c :: piece) :: pieces

/-- The pieces in a row, with a separator between any two. -/
def joinWith (separator : List Char) : List (List Char) → List Char
  | [] => []
  | [piece] => piece
  | piece :: pieces => piece ++ separator ++ joinWith separator pieces

/-- The text after a given beginning, if it has that beginning. -/
def stripStart? : List Char → List Char → Option (List Char)
  | [], cs => some cs
  | _ :: _, [] => none
  | b :: beginning, c :: cs => if b = c then stripStart? beginning cs else none

theorem stripStart?_eq_some_iff {beginning cs rest : List Char} :
    stripStart? beginning cs = some rest ↔ cs = beginning ++ rest := by
  induction beginning generalizing cs with
  | nil => simp [stripStart?, eq_comm]
  | cons b beginning ih =>
      cases cs with
      | nil => simp [stripStart?]
      | cons c cs =>
          by_cases h : b = c
          · simp [stripStart?, h, ih]
          · simp [stripStart?, h, Ne.symm h]

theorem splitOn_ne_nil (separator : Char) (cs : List Char) : splitOn separator cs ≠ [] := by
  cases cs with
  | nil => simp [splitOn]
  | cons c cs =>
      unfold splitOn
      split
      · simp
      · split <;> simp

/-- A character goes in front of the first piece when the text does. -/
theorem joinWith_cons_head
    (separator : List Char) (c : Char) (piece : List Char) (pieces : List (List Char)) :
    joinWith separator ((c :: piece) :: pieces) = c :: joinWith separator (piece :: pieces) := by
  cases pieces <;> simp [joinWith]

theorem joinWith_splitOn (separator : Char) (cs : List Char) :
    joinWith [separator] (splitOn separator cs) = cs := by
  induction cs with
  | nil => simp [splitOn, joinWith]
  | cons c cs ih =>
      unfold splitOn
      have hne := splitOn_ne_nil separator cs
      generalize splitOn separator cs = pieces at ih hne ⊢
      cases pieces with
      | nil => exact absurd rfl hne
      | cons piece pieces =>
          by_cases h : c = separator
          · simp [h, joinWith, ih]
          · simp [h, joinWith_cons_head, ih]

end Text

end LinearProgram
