import LinearProgram.Text.Printable

/-!
# Quoted text

Two ways of showing text between quotes.  In a JSON string only the quote, the
backslash and control characters are escaped.  In shown text every character that
cannot be seen on its own is replaced by its code point.
-/

namespace LinearProgram

namespace Text

/-- A number in hexadecimal digits, filled up with zeros to the given width. -/
def hexText (width n : Nat) : List Char :=
  let digits := Nat.toDigits 16 n
  List.replicate (width - digits.length) '0' ++ digits

/-- A character of a JSON string. -/
def jsonEscape (c : Char) : List Char :=
  if c = '"' then ['\\', '"']
  else if c = '\\' then ['\\', '\\']
  else if c = '\n' then ['\\', 'n']
  else if c = '\r' then ['\\', 'r']
  else if c = '\t' then ['\\', 't']
  else if c = '\x08' then ['\\', 'b']
  else if c = '\x0c' then ['\\', 'f']
  else if c.toNat < 0x20 then ['\\', 'u'] ++ hexText 4 c.toNat
  else [c]

def jsonQuoted (cs : List Char) : List Char :=
  '"' :: (cs.flatMap jsonEscape ++ ['"'])

/-- A character of shown text between the given quotes. -/
def shownEscape (quote c : Char) : List Char :=
  if c = '\x00' then ['\\', '0']
  else if c = '\t' then ['\\', 't']
  else if c = '\r' then ['\\', 'r']
  else if c = '\n' then ['\\', 'n']
  else if c = quote || c = '\\' then ['\\', c]
  else if isPrintable c then [c]
  else ['\\', 'u', '\x7b'] ++ hexText 1 c.toNat ++ ['\x7d']

def shown (quote : Char) (cs : List Char) : List Char :=
  quote :: (cs.flatMap (shownEscape quote) ++ [quote])

end Text

end LinearProgram
