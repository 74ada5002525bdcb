import LinearProgram.Text.Pieces

/-!
# Names

Variables and constraints are named by a template and an optional index key, written
`Buy[fries,2]`.  This module writes names, reads them from text, and says which names
an LP file can carry: the characters allowed in each part, and the words that a reader
would take for a section header or a bound keyword.

The main statement is `chars_ofChars`: reading a name and writing it again gives the
text back.
-/

namespace LinearProgram

/-- A template with an index key; a flat name has an empty key. -/
structure Name where
  template : String
  key : List String
deriving DecidableEq

/-- What keeps a name from being used in an LP file. -/
inductive NameFault where
  | emptyTemplate
  | leadingDigitOrPoint
  | templateCharacter
  | reservedWord
  | emptyKeyPart
  | keyCharacter
deriving DecidableEq

def NameFault.message : NameFault → String
  | emptyTemplate => "template is empty"
  | leadingDigitOrPoint => "template cannot start with a digit or '.'"
  | templateCharacter => "template contains a character not allowed in LP names"
  | reservedWord => "name is a reserved LP keyword"
  | emptyKeyPart => "index key part is empty"
  | keyCharacter => "index key contains a character not allowed in LP names"

namespace Name

/-- A name without an index key. -/
def flat (template : String) : Name :=
  ⟨template, []⟩

def isIndexed (name : Name) : Bool :=
  !name.key.isEmpty

/-- The written form of a name. -/
def chars (name : Name) : List Char :=
  if name.key = [] then name.template.toList
  else name.template.toList ++ '[' :: (Text.joinWith [','] (name.key.map String.toList) ++ [']'])

def text (name : Name) : String :=
  String.ofList name.chars

/--
The template and the key between the first opening bracket and a closing bracket at the
end, when both are nonempty.
-/
def bracketed? (cs : List Char) : Option (List Char × List Char) :=
  if cs.getLast? = some ']' then
    let template := cs.dropLast.takeWhile (· ≠ '[')
    let key := (cs.dropLast.dropWhile (· ≠ '[')).drop 1
    if template.isEmpty || key.isEmpty then none else some (template, key)
  else
    none

/-- The name that a text denotes; text that is not of the bracketed form is a flat name. -/
def ofChars (cs : List Char) : Name :=
  match bracketed? cs with
  | some (template, key) =>
    ⟨String.ofList template, (Text.splitOn ',' key).map String.ofList⟩
  | none => flat (String.ofList cs)

def ofText (text : String) : Name :=
  ofChars text.toList

/-- The marks allowed in a template besides ASCII letters and digits. -/
def templateMarks : List Char :=
  ['_', '.', '!', '#', '$', '%', '&', '/', ';', '?', '@', '\'', '~', '|']

/-- The marks allowed in a part of the key besides ASCII letters and digits. -/
def keyMarks : List Char :=
  ['_', '.', '-', '+', '!', '#', '$', '%', '&', '/', ';', '?', '@', '\'', '~', '|']

def isTemplateChar (c : Char) : Bool :=
  c.isAlphanum || templateMarks.contains c

def isKeyChar (c : Char) : Bool :=
  c.isAlphanum || keyMarks.contains c

/-- The words with a meaning of their own in an LP file, in small letters. -/
def reservedWords : List String :=
  ["min", "minimize", "minimise", "minimum",
   "max", "maximize", "maximise", "maximum",
   "st", "s.t.", "st.", "subject", "such",
   "bound", "bounds",
   "gen", "general", "generals",
   "bin", "binary", "binaries",
   "end", "free", "inf", "infinity"]

/-- Whether a text is a reserved word in any ASCII case. -/
def isReserved (text : String) : Bool :=
  reservedWords.contains (asciiLower text)

def keyPartFault? (part : String) : Option NameFault :=
  if part.toList.isEmpty then some .emptyKeyPart
  else if part.toList.all isKeyChar then none
  else some .keyCharacter

/-- The first fault of a name: of its template, then of its key parts in order. -/
def fault? (name : Name) : Option NameFault :=
  match name.template.toList with
  | [] => some .emptyTemplate
  | first :: rest =>
    if first.isDigit || first == '.' then some .leadingDigitOrPoint
    else if !(first :: rest).all isTemplateChar then some .templateCharacter
    else if !name.isIndexed && isReserved name.template then some .reservedWord
    else name.key.findSome? keyPartFault?

/-- Names in the order of their templates, then of their keys part by part. -/
instance : Ord Name where
  compare a b := (compare a.template b.template).then (compare a.key b.key)

/-- The distinct names of a list in increasing order. -/
def sortDistinct (names : List Name) : List Name :=
  (names.mergeSort fun a b => (compare a b).isLE).eraseReps

theorem eq_of_bracketed?_eq_some
    {cs template key : List Char}
    (h : bracketed? cs = some (template, key)) :
    cs = template ++ '[' :: (key ++ [']']) := by
  unfold bracketed? at h
  split at h
  next hlast =>
    obtain ⟨inner, rfl⟩ := List.getLast?_eq_some_iff.mp hlast
    simp only [List.dropLast_concat, Option.ite_none_left_eq_some, Option.some.injEq,
      Prod.mk.injEq] at h
    obtain ⟨hne, htemplate, hkey⟩ := h
    rw [htemplate, hkey] at hne
    have hparts := List.takeWhile_append_dropWhile (p := fun c => decide (c ≠ '['))
      (l := inner)
    have hhead := List.head?_dropWhile_not (fun c => decide (c ≠ '[')) inner
    cases hrest : inner.dropWhile (fun c => decide (c ≠ '[')) with
    | nil =>
        rw [hrest] at hkey
        simp [← hkey] at hne
    | cons bracket rest =>
        rw [hrest] at hparts hhead hkey
        have hbracket : bracket = '[' := by simpa using hhead
        rw [htemplate, hbracket] at hparts
        simp [← hparts, ← hkey]
  · simp at h

theorem chars_ofChars (cs : List Char) : (ofChars cs).chars = cs := by
  unfold ofChars
  split
  next template key h =>
    have hne := Text.splitOn_ne_nil ',' key
    rw [eq_of_bracketed?_eq_some h]
    simp [chars, hne, Function.comp_def, Text.joinWith_splitOn]
  · simp [chars, flat]

end Name

end LinearProgram
