import LinearProgram.Decimal.Shortest

/-!
# Number styles

A `NumberStyle` says how the shortest decimal of a value is laid out: which decimal
exponents are written positionally and which scientifically, how whole numbers end,
how exponents are signed, and what stands for the values that have no digits.  The
styles themselves are constants of this type, each beside the output it serves.
-/

namespace LinearProgram

/-- The layout of a number as text. -/
structure NumberStyle where
  /-- The decimal exponents of the leading digit that are written positionally. -/
  isPositional : Int → Bool
  /-- What follows a whole number in positional writing. -/
  wholeSuffix : List Char
  /-- What precedes an exponent that is not negative. -/
  exponentSign : List Char
  /-- Whether negative zero shows its sign. -/
  signsZero : Bool
  ties : TieRule
  nanText : List Char
  infinityText : List Char
  negativeInfinityText : List Char

namespace Decimal

def digits (d : Decimal) : List Char :=
  Nat.toDigits 10 d.coefficient

/-- The decimal exponent of the leading digit; zero counts as a single digit. -/
def magnitudeExponent (d : Decimal) : Int :=
  d.exponent + d.digits.length - 1

/-- All digits in their places, with zeros up to the point. -/
def positionalText (wholeSuffix : List Char) (d : Decimal) : List Char :=
  if 0 ≤ d.exponent then
    d.digits ++ List.replicate d.exponent.toNat '0' ++ wholeSuffix
  else
    let places := (-d.exponent).toNat
    let whole := d.digits.length - places
    if whole = 0 then
      '0' :: '.' :: (List.replicate (places - d.digits.length) '0' ++ d.digits)
    else
      d.digits.take whole ++ '.' :: d.digits.drop whole

/-- One digit before the point and the exponent after an `e`. -/
def scientificText (exponentSign : List Char) (d : Decimal) : List Char :=
  let mantissa := match d.digits with
    | [] => []
    | [digit] => [digit]
    | digit :: fraction => digit :: '.' :: fraction
  let exponent := d.magnitudeExponent
  let sign := if exponent < 0 then ['-'] else exponentSign
  mantissa ++ 'e' :: (sign ++ Nat.toDigits 10 exponent.natAbs)

end Decimal

namespace NumberStyle

/-- The text of a decimal without its sign. -/
def decimalText (style : NumberStyle) (d : Decimal) : List Char :=
  if style.isPositional d.magnitudeExponent then d.positionalText style.wholeSuffix
  else d.scientificText style.exponentSign

def render (style : NumberStyle) : Binary64 → List Char
  | .nan => style.nanText
  | .infinity negative => if negative then style.negativeInfinityText else style.infinityText
  | .finite negative m =>
    let text := style.decimalText (Decimal.shortest style.ties m)
    if negative && (style.signsZero || m.quanta != 0) then '-' :: text else text

/-- Every digit in its place, never an exponent. -/
def plain : NumberStyle where
  isPositional _ := true
  wholeSuffix := []
  exponentSign := []
  signsZero := true
  ties := .toLarger
  nanText := ['N', 'a', 'N']
  infinityText := ['i', 'n', 'f']
  negativeInfinityText := ['-', 'i', 'n', 'f']

/-- Always one digit before the point and an exponent. -/
def scientific : NumberStyle where
  isPositional _ := false
  wholeSuffix := []
  exponentSign := []
  signsZero := true
  ties := .toLarger
  nanText := ['n', 'a', 'n']
  infinityText := ['i', 'n', 'f']
  negativeInfinityText := ['-', 'i', 'n', 'f']

end NumberStyle

/-- A number with every digit in its place. -/
def Binary64.plainText (x : Binary64) : String :=
  String.ofList (NumberStyle.plain.render x)

/-- A number with one digit before the point and an exponent. -/
def Binary64.scientificText (x : Binary64) : String :=
  String.ofList (NumberStyle.scientific.render x)

end LinearProgram
