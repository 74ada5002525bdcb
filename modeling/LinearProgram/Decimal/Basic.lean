import LinearProgram.Binary64.Basic

/-!
# Decimal numbers and their numerals

A `Decimal` is a natural number times a power of ten.  This module reads decimals
from numerals and rounds them to the nearest binary64 value.  The exponent of a
numeral may have any number of digits, so rounding decides the outcome for exponents
far outside the binary64 range before it forms a power of ten.
-/

namespace LinearProgram

/-- The number `coefficient * 10 ^ exponent`. -/
structure Decimal where
  coefficient : Nat
  exponent : Int
deriving DecidableEq

/-- The natural number that a list of decimal digits denotes. -/
def digitsValue (digits : List Char) : Nat :=
  digits.foldl (fun value digit => 10 * value + (digit.toNat - '0'.toNat)) 0

namespace Decimal

/--
The nearest binary64 value with the given sign.

A positive coefficient is at least one, so an exponent above 309 overflows; it is
below `10 ^ (log2 coefficient + 1)`, which decides when the value vanishes.
-/
def toBinary64 (negative : Bool) (d : Decimal) : Binary64 :=
  if d.coefficient = 0 then .finite negative .zero
  else if 309 < d.exponent then .infinity negative
  else if d.exponent + d.coefficient.log2 < -330 then .finite negative .zero
  else if 0 ≤ d.exponent then
    .ofRatio negative (d.coefficient * Nat.pow 10 d.exponent.toNat * unitQuanta) 1
  else
    .ofRatio negative (d.coefficient * unitQuanta) (Nat.pow 10 (-d.exponent).toNat)

/-- Digits with an optional sign, the tail of an exponent. -/
def exponentOfDigits? (cs : List Char) : Option Int :=
  let magnitude? (digits : List Char) : Option Nat :=
    if !digits.isEmpty && digits.all Char.isDigit then some (digitsValue digits) else none
  match cs with
  | '+' :: digits => (magnitude? digits).map Int.ofNat
  | '-' :: digits => (magnitude? digits).map fun n => -Int.ofNat n
  | digits => (magnitude? digits).map Int.ofNat

/-- The exponent part of a numeral; none written means zero. -/
def exponentPart? : List Char → Option Int
  | [] => some 0
  | c :: cs => if c = 'e' || c = 'E' then exponentOfDigits? cs else none

/-- The fractional digits of a numeral, and what follows them. -/
def fractionPart : List Char → List Char × List Char
  | '.' :: cs => (cs.takeWhile Char.isDigit, cs.dropWhile Char.isDigit)
  | cs => ([], cs)

/--
The decimal that a whole numeral denotes: digits, optionally a point and digits,
optionally an exponent, with at least one digit before the exponent.
-/
def ofNumeral? (cs : List Char) : Option Decimal :=
  let whole := cs.takeWhile Char.isDigit
  let (fraction, rest) := fractionPart (cs.dropWhile Char.isDigit)
  if whole.isEmpty && fraction.isEmpty then none
  else (exponentPart? rest).map fun exponent =>
    { coefficient := digitsValue (whole ++ fraction)
      exponent := exponent - fraction.length }

end Decimal

/-- The value of an unsigned numeral. -/
def Binary64.ofNumeral? (cs : List Char) : Option Binary64 :=
  (Decimal.ofNumeral? cs).map (Decimal.toBinary64 false)

/-- The value of a numeral with an optional minus sign, or of `inf`, `-inf` or `nan`. -/
def Binary64.ofText? (text : String) : Option Binary64 :=
  match text with
  | "inf" => some (.infinity false)
  | "-inf" => some (.infinity true)
  | "nan" => some .nan
  | _ =>
    match text.toList with
    | '-' :: cs => (Decimal.ofNumeral? cs).map (Decimal.toBinary64 true)
    | cs => (Decimal.ofNumeral? cs).map (Decimal.toBinary64 false)

end LinearProgram
