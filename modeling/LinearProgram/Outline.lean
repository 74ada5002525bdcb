import LinearProgram.Decimal.Style
import LinearProgram.Text.Quoted

/-!
# Outlines

An outline is a tree of named parts.  It can be laid out as JSON, or as an indented
listing that also shows the titles of records and which values are optional.  In both
layouts every part stands on a line of its own, deeper than the part that holds it.
-/

namespace LinearProgram

inductive Outline where
  | number (x : Binary64)
  | count (n : Nat)
  | text (content : String)
  /-- One word of a fixed choice. -/
  | word (content : String)
  | absent
  | present (value : Outline)
  | list (items : List Outline)
  | record (title : String) (fields : List (String × Outline))

namespace NumberStyle

/-- Positional from `1e-5` up to below `1e16`; a value without digits is null. -/
def json : NumberStyle where
  isPositional exponent := -5 ≤ exponent && exponent < 16
  wholeSuffix := ['.', '0']
  exponentSign := ['+']
  signsZero := true
  ties := .toEven
  nanText := ['n', 'u', 'l', 'l']
  infinityText := ['n', 'u', 'l', 'l']
  negativeInfinityText := ['n', 'u', 'l', 'l']

/-- Positional from `1e-4` up to below `1e16`. -/
def listing : NumberStyle where
  isPositional exponent := -4 ≤ exponent && exponent < 16
  wholeSuffix := ['.', '0']
  exponentSign := []
  signsZero := true
  ties := .toLarger
  nanText := ['N', 'a', 'N']
  infinityText := ['i', 'n', 'f']
  negativeInfinityText := ['-', 'i', 'n', 'f']

end NumberStyle

namespace Outline

/-- The beginning of a line inside the given number of parts. -/
def lineStart (width depth : Nat) : List Char :=
  '\n' :: List.replicate (width * depth) ' '

/-- Lines between an opening and a closing mark; without lines the marks stand together. -/
def enclosed (start stop : List Char) (width depth : Nat) : List (List Char) → List Char
  | [] => start ++ stop
  | lines =>
    start ++ lines.flatMap (lineStart width (depth + 1) ++ ·) ++ lineStart width depth ++ stop

/-- The pieces with a comma behind each but the last. -/
def commasBetween : List (List Char) → List (List Char)
  | [] => []
  | [piece] => [piece]
  | piece :: pieces => (piece ++ [',']) :: commasBetween pieces

def commasBehind (pieces : List (List Char)) : List (List Char) :=
  pieces.map (· ++ [','])

mutual

/-- The outline as JSON, two columns deeper for each part. -/
def jsonAt (depth : Nat) : Outline → List Char
  | number x => NumberStyle.json.render x
  | count n => Nat.toDigits 10 n
  | text content => Text.jsonQuoted content.toList
  | word content => Text.jsonQuoted content.toList
  | absent => ['n', 'u', 'l', 'l']
  | present value => jsonAt depth value
  | list items => enclosed ['['] [']'] 2 depth (commasBetween (jsonItems (depth + 1) items))
  | record _ fields =>
    enclosed ['\x7b'] ['\x7d'] 2 depth (commasBetween (jsonFields (depth + 1) fields))

def jsonItems (depth : Nat) : List Outline → List (List Char)
  | [] => []
  | item :: items => jsonAt depth item :: jsonItems depth items

def jsonFields (depth : Nat) : List (String × Outline) → List (List Char)
  | [] => []
  | (name, value) :: fields =>
    (Text.jsonQuoted name.toList ++ ':' :: ' ' :: jsonAt depth value) :: jsonFields depth fields

end

mutual

/-- The outline as a listing, four columns deeper for each part. -/
def listingAt (depth : Nat) : Outline → List Char
  | number x => NumberStyle.listing.render x
  | count n => Nat.toDigits 10 n
  | text content => Text.shown '"' content.toList
  | word content => content.toList
  | absent => "None".toList
  | present value =>
    enclosed "Some(".toList [')'] 4 depth (commasBehind [listingAt (depth + 1) value])
  | list items => enclosed ['['] [']'] 4 depth (commasBehind (listingItems (depth + 1) items))
  | record title fields =>
    enclosed (title.toList ++ [' ', '\x7b']) ['\x7d'] 4 depth
      (commasBehind (listingFields (depth + 1) fields))

def listingItems (depth : Nat) : List Outline → List (List Char)
  | [] => []
  | item :: items => listingAt depth item :: listingItems depth items

def listingFields (depth : Nat) : List (String × Outline) → List (List Char)
  | [] => []
  | (name, value) :: fields =>
    (name.toList ++ ':' :: ' ' :: listingAt depth value) :: listingFields depth fields

end

def json (outline : Outline) : String :=
  String.ofList (jsonAt 0 outline)

def listing (outline : Outline) : String :=
  String.ofList (listingAt 0 outline)

/-- A value that may be missing. -/
def ofOption (value : α → Outline) : Option α → Outline
  | some a => present (value a)
  | none => absent

end Outline

end LinearProgram
