/-!
# Ranges of code points

A class of characters is a list of ranges of code points in increasing order, both
ends included.  Membership looks no further than the first range above the character.
-/

namespace LinearProgram

/-- Ranges of code points in increasing order, each with its first and last member. -/
abbrev CodeRanges :=
  List (Nat × Nat)

namespace CodeRanges

/-- Whether a code point lies in one of the ranges. -/
def coversCode : CodeRanges → Nat → Bool
  | [], _ => false
  | (first, last) :: ranges, code =>
    if code < first then false
    else if code ≤ last then true
    else coversCode ranges code

/-- Whether a character lies in one of the ranges. -/
def covers (ranges : CodeRanges) (c : Char) : Bool :=
  ranges.coversCode c.toNat

end CodeRanges

end LinearProgram
