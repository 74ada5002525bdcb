import LinearProgram.Text.Alphanumeric
import LinearProgram.Token.Basic

/-!
# Extents of lexemes

How many characters at the front of a text belong together: digits, a numeral, an
identifier with its index key, a comment, a relation sign.  `lexemeOf` decides the kind
from the first character and gives the number of further characters that it takes.
-/

namespace LinearProgram

/-- The characters between tokens; a line break is a token of its own. -/
def isSpacing (c : Char) : Bool :=
  c = ' ' || c = '\t' || c = '\r'

/-- The marks of an identifier besides letters and numbers. -/
def identMarks : List Char :=
  ['_', '!', '"', '#', '$', '%', '&', '(', ')', '/', ',', '.', ';', '?', '@', '\'', '\x60',
   '\x7b', '\x7d', '~', '|']

/-- The characters of an identifier outside of an index key. -/
def isIdentChar (c : Char) : Bool :=
  isAlphanumeric c || identMarks.contains c

def digitsExtent (cs : List Char) : Nat :=
  (cs.takeWhile Char.isDigit).length

/-- A point and the digits after it, which may be none. -/
def fractionExtent : List Char → Nat
  | '.' :: cs => 1 + digitsExtent cs
  | _ => 0

/-- The sign and the digits of an exponent, or nothing when there are no digits. -/
def signedDigitsExtent : List Char → Nat
  | [] => 0
  | c :: cs =>
    if c = '+' || c = '-' then
      if digitsExtent cs = 0 then 0 else 1 + digitsExtent cs
    else
      digitsExtent (c :: cs)

/-- An `e` with an exponent; without digits it is no part of the numeral. -/
def exponentExtent : List Char → Nat
  | [] => 0
  | c :: cs =>
    if (c = 'e' || c = 'E') && signedDigitsExtent cs ≠ 0 then 1 + signedDigitsExtent cs else 0

/-- Digits, then a point with digits, then an exponent, each of which may be missing. -/
def numeralExtent (cs : List Char) : Nat :=
  let whole := digitsExtent cs
  let fraction := fractionExtent (cs.drop whole)
  whole + fraction + exponentExtent (cs.drop (whole + fraction))

/--
An identifier, given how many brackets are open.

Inside brackets every character but a line break belongs to it.
-/
def identExtent : Nat → List Char → Nat
  | _, [] => 0
  | 0, c :: cs =>
    if c = '[' then 1 + identExtent 1 cs
    else if isIdentChar c then 1 + identExtent 0 cs
    else 0
  | depth + 1, c :: cs =>
    if c = '\n' then 0
    else if c = '[' then 1 + identExtent (depth + 2) cs
    else if c = ']' then 1 + identExtent depth cs
    else 1 + identExtent (depth + 1) cs

/-- Whether a numeral begins: with a digit, or with a point before a digit. -/
def startsNumeral (c : Char) (cs : List Char) : Bool :=
  c.isDigit || (c = '.' && digitsExtent cs ≠ 0)

/-- One more character if it is the given one. -/
def followedBy (next : Char) (cs : List Char) : Nat :=
  if cs.head? = some next then 1 else 0

/-- The kind of the lexeme at a character, and how many characters it takes after that. -/
def lexemeOf (c : Char) (cs : List Char) : TokenKind × Nat :=
  if c = '\n' then (.newline, 0)
  else if c = '\\' then (.comment, (cs.takeWhile (· ≠ '\n')).length)
  else if c = '+' then (.plus, 0)
  else if c = '-' then (.minus, 0)
  else if c = ':' then (.colon, 0)
  else if c = '<' then (.le, followedBy '=' cs)
  else if c = '>' then (.ge, followedBy '=' cs)
  else if c = '=' then
    if cs.head? = some '<' then (.le, 1)
    else if cs.head? = some '>' then (.ge, 1)
    else (.eq, followedBy '=' cs)
  else if startsNumeral c cs then (.number, numeralExtent (c :: cs) - 1)
  else if c = '[' || isIdentChar c then (.ident, identExtent 0 (c :: cs) - 1)
  else (.invalid, 0)

end LinearProgram
