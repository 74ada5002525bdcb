import LinearProgram.Decimal.Basic

/-!
# Shortest decimals

The decimal printed for a binary64 value is the one with the fewest digits that reads
back as the same value, and the nearest of those.  On the grid of decimals with `k`
significant digits only the two neighbours of the value need a look; each is put to
the test by reading it.  Should no grid of up to 17 digits have a hit, the exact
expansion of the value is taken, so what is printed always reads back.

The main statement is `toBinary64_ofGrid`: a decimal taken from a grid reads back.
-/

namespace LinearProgram

/-- What to do when a value lies halfway between two decimals that both read back. -/
inductive TieRule where
  | toLarger
  | toEven
deriving DecidableEq

/-- Whether the upper neighbour is to be preferred, given the lower one and the remainder. -/
def TieRule.prefersUpper (ties : TieRule) (lower remainder den : Nat) : Bool :=
  if 2 * remainder < den then false
  else if den < 2 * remainder then true
  else match ties with
    | .toLarger => true
    | .toEven => lower % 2 == 1

namespace Decimal

/-- Trailing zeros of the coefficient moved into the exponent. -/
def stripZeros (d : Decimal) : Decimal :=
  if d.coefficient ≠ 0 ∧ d.coefficient % 10 = 0 then
    stripZeros ⟨d.coefficient / 10, d.exponent + 1⟩
  else
    d
termination_by d.coefficient
decreasing_by omega

/-- The exponent of the leading decimal digit of a positive magnitude. -/
def leadingExponent (m : Magnitude) : Int :=
  (Nat.toDigits 10 (m.quanta * Nat.pow 10 400 / unitQuanta)).length - 401

/-- A magnitude over `10 ^ exponent`, as a numerator and a denominator. -/
def gridRatio (m : Magnitude) (exponent : Int) : Nat × Nat :=
  if 0 ≤ exponent then (m.quanta, unitQuanta * Nat.pow 10 exponent.toNat)
  else (m.quanta * Nat.pow 10 (-exponent).toNat, unitQuanta)

/-- Whether a decimal reads back as the magnitude. -/
def readsBack (m : Magnitude) (d : Decimal) : Bool :=
  d.toBinary64 false == .finite false m

/-- The neighbour of a magnitude on the grid of `10 ^ exponent` that reads back, if any. -/
def ofGrid? (ties : TieRule) (m : Magnitude) (exponent : Int) : Option Decimal :=
  let (num, den) := gridRatio m exponent
  let lower := stripZeros ⟨num / den, exponent⟩
  let upper := stripZeros ⟨num / den + 1, exponent⟩
  match readsBack m lower, readsBack m upper with
  | true, true => if ties.prefersUpper (num / den) (num % den) den then some upper else some lower
  | true, false => some lower
  | false, true => some upper
  | false, false => none

/-- The exact decimal expansion of a magnitude. -/
def exact (m : Magnitude) : Decimal :=
  ⟨m.quanta * Nat.pow 5 1074, -1074⟩

/-- The shortest decimal of at most 17 digits that reads back as the magnitude. -/
def shortest (ties : TieRule) (m : Magnitude) : Decimal :=
  if m.quanta = 0 then ⟨0, 0⟩
  else
    let leading := leadingExponent m
    ((List.range 17).findSome? fun (k : Nat) => ofGrid? ties m (leading - k)).getD (exact m)

theorem toBinary64_ofGrid
    {ties : TieRule} {m : Magnitude} {exponent : Int} {d : Decimal}
    (h : ofGrid? ties m exponent = some d) :
    d.toBinary64 false = .finite false m := by
  unfold ofGrid? at h
  revert h
  dsimp only
  split
  next hlower hupper =>
    split
    · intro h
      cases h
      simpa [readsBack] using hupper
    · intro h
      cases h
      simpa [readsBack] using hlower
  next hlower _ =>
    intro h
    cases h
    simpa [readsBack] using hlower
  next _ hupper =>
    intro h
    cases h
    simpa [readsBack] using hupper
  next => simp

end Decimal

end LinearProgram
