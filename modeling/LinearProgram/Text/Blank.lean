import LinearProgram.Text.CodeRanges

/-!
# Blank characters

Trimming removes the characters with the Unicode property White_Space.  The scanner
of LP text has a narrower notion of spacing, which is its own.
-/

namespace LinearProgram

/-- The code points of white space. -/
def blankRanges : CodeRanges :=
  [(0x9, 0xD), (0x20, 0x20), (0x85, 0x85), (0xA0, 0xA0), (0x1680, 0x1680), (0x2000, 0x200A),
   (0x2028, 0x2029), (0x202F, 0x202F), (0x205F, 0x205F), (0x3000, 0x3000)]

/-- Whether a character is white space. -/
def isBlank (c : Char) : Bool :=
  blankRanges.covers c

namespace Text

/-- The text from its first character that is not blank. -/
def trimLeft (cs : List Char) : List Char :=
  cs.dropWhile isBlank

/-- The text without the blanks at its end. -/
def trimRight (cs : List Char) : List Char :=
  (cs.reverse.dropWhile isBlank).reverse

/-- The text without the blanks at both ends. -/
def trim (cs : List Char) : List Char :=
  trimRight (trimLeft cs)

end Text

end LinearProgram
