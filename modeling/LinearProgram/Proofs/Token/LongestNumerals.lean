import LinearProgram.Proofs.Token.Numbers
import LinearProgram.Proofs.Token.Spelling
import LinearProgram.Proofs.Token.Tiling

/-!
# Number tokens are as long as they can be

A number token covers a numeral, and no longer numeral begins where it begins.  So an
exponent belongs to it exactly if there is a digit behind the letter and the sign.  In the
other direction the text of a number that is not negative is a single token wherever a
separator follows.  The main statements are `Token.exists_longest_of_mem_scan` and
`Numeral.scanFrom_chars_append`.
-/

namespace LinearProgram

open String (utf8Len)

namespace Numeral

/-- A numeral at the beginning of a text, with no longer one there. -/
structure IsLongest (n : Numeral) (cs : List Char) : Prop where
  starts : n.chars <+: cs
  longest : ∀ n' : Numeral, n'.chars <+: cs → n'.chars.length ≤ n.chars.length

/-! ## What the scanner takes -/

/-- Digits are taken up to the first other character, and the rest is looked at behind them. -/
theorem numeralExtent_digits_append {digits tail : List Char}
    (hdigits : ∀ c ∈ digits, c.isDigit = true) (htail : digitsExtent tail = 0) :
    numeralExtent (digits ++ tail) = digits.length + fractionExtent tail +
      exponentExtent (tail.drop (fractionExtent tail)) := by
  have hwhole : digitsExtent (digits ++ tail) = digits.length := by
    rw [digitsExtent_append hdigits, htail, Nat.add_zero]
  have hdrop : (digits ++ tail).drop digits.length = tail := List.drop_left
  unfold numeralExtent
  dsimp only
  rw [hwhole, ← List.drop_drop, hdrop]

theorem digitsExtent_le_numeralExtent (cs : List Char) : digitsExtent cs ≤ numeralExtent cs := by
  unfold numeralExtent
  dsimp only
  omega

theorem exponentChars_length_le (n : Numeral) (rest : List Char) :
    n.exponentChars.length ≤ exponentExtent (n.exponentChars ++ rest) := by
  rw [exponentChars]
  cases n.exponent with
  | none => exact Nat.zero_le _
  | some exponent =>
      dsimp only
      rw [exponent.exponentExtent_append rest]
      exact Nat.le_add_right _ _

/-- Behind an exponent letter there is nothing that could belong to the digits before it. -/
theorem extents_exponentChars_append {n : Numeral} (h : n.exponent ≠ none) (rest : List Char) :
    digitsExtent (n.exponentChars ++ rest) = 0 ∧
      fractionExtent (n.exponentChars ++ rest) = 0 := by
  obtain ⟨exponent, hexponent⟩ := Option.ne_none_iff_exists'.mp h
  rw [exponentChars, hexponent]
  dsimp only [ExponentPart.chars]
  rcases exponent.letter_eq with hletter | hletter <;> rw [hletter] <;> constructor <;>
    simp [digitsExtent, fractionExtent]

/-- The digits behind a point are taken with it, and so are further ones behind them. -/
theorem extents_fractionChars_append {n : Numeral} {digits : List Char}
    (h : n.fraction = some digits) (rest : List Char) :
    digitsExtent (n.fractionChars ++ rest) = 0 ∧
      fractionExtent (n.fractionChars ++ rest) = n.fractionChars.length + digitsExtent rest := by
  have hdigits := n.isDigit_of_mem_fraction
  rw [h, Option.getD_some] at hdigits
  rw [fractionChars, h]
  constructor
  · exact digitsExtent_eq_zero (by decide) _
  · rw [List.cons_append, fractionExtent, digitsExtent_append hdigits, List.length_cons]
    omega

/-- A numeral at the beginning of a text is taken as a whole. -/
theorem length_chars_le_numeralExtent (n : Numeral) (rest : List Char) :
    n.chars.length ≤ numeralExtent (n.chars ++ rest) := by
  have hall : n.chars ++ rest = n.whole ++ (n.fractionChars ++ (n.exponentChars ++ rest)) := by
    rw [chars, List.append_assoc, List.append_assoc]
  have hlength : n.chars.length =
      n.whole.length + (n.fractionChars.length + n.exponentChars.length) := by
    rw [chars, List.length_append, List.length_append]
  have hexponent := n.exponentChars_length_le rest
  rw [hall, hlength]
  by_cases hexp : n.exponent = none
  · have hnone : n.exponentChars.length = 0 := by rw [exponentChars, hexp]; rfl
    cases hfraction : n.fraction with
    | none =>
        -- Digits alone may go on into a fraction or an exponent that follows.
        have hempty : n.fractionChars.length = 0 := by rw [fractionChars, hfraction]; rfl
        have hle := digitsExtent_le_numeralExtent
          (n.whole ++ (n.fractionChars ++ (n.exponentChars ++ rest)))
        rw [digitsExtent_append n.isDigit_of_mem_whole] at hle
        omega
    | some digits =>
        obtain ⟨hpoint, hextent⟩ := extents_fractionChars_append hfraction
          (n.exponentChars ++ rest)
        rw [numeralExtent_digits_append n.isDigit_of_mem_whole hpoint, hextent]
        omega
  · obtain ⟨hdigits, hpoint⟩ := extents_exponentChars_append hexp rest
    cases hfraction : n.fraction with
    | none =>
        have hempty : n.fractionChars = [] := by rw [fractionChars, hfraction]
        rw [hempty, List.nil_append, numeralExtent_digits_append n.isDigit_of_mem_whole hdigits,
          hpoint, List.drop_zero, List.length_nil]
        omega
    | some digits =>
        obtain ⟨hzero, hextent⟩ := extents_fractionChars_append hfraction
          (n.exponentChars ++ rest)
        rw [numeralExtent_digits_append n.isDigit_of_mem_whole hzero, hextent, hdigits,
          Nat.add_zero, List.drop_left]
        omega

/-- What the scanner takes is a numeral of which there is no longer one. -/
theorem isLongest_of_eq_take {n : Numeral} {cs : List Char}
    (h : n.chars = cs.take (numeralExtent cs)) : n.IsLongest cs := by
  refine ⟨h ▸ List.take_prefix _ _, fun n' hstarts => ?_⟩
  obtain ⟨rest, rfl⟩ := hstarts
  rw [h, List.length_take]
  apply Nat.le_min_of_le_of_le
  · exact n'.length_chars_le_numeralExtent rest
  · rw [List.length_append]
    exact Nat.le_add_right _ _

/-! ## Tokens -/

/-- A numeral is a single token, wherever its text begins. -/
theorem scanFrom_chars_append (n : Numeral) {rest : List Char} (hrest : Separates rest)
    (offset : Nat) :
    Token.scanFrom offset (n.chars ++ rest) =
      ⟨.number, ⟨offset, offset + (String.ofList n.chars).utf8ByteSize⟩, String.ofList n.chars⟩ ::
        Token.scanFrom (offset + (String.ofList n.chars).utf8ByteSize) rest := by
  obtain ⟨c, cs, hchars, hstarts⟩ := n.exists_chars_eq_cons
  have hspells := n.spells rest hrest
  rw [hchars] at hspells ⊢
  exact Token.scanFrom_of_lexemes (isSpacing_of_startsNumeral (hstarts [])) hspells offset

end Numeral

namespace Token

/-- Every number token covers a numeral of which there is no longer one. -/
theorem exists_longest_of_mem_scan {source : String} {token : Token}
    (hmem : token ∈ scan source) (hkind : token.kind = .number) :
    ∃ (before : List Char) (n : Numeral) (rest : List Char),
      source.toList = before ++ (n.chars ++ rest) ∧ n.IsLongest (n.chars ++ rest) ∧
        token = ⟨.number, ⟨utf8Len before, utf8Len (before ++ n.chars)⟩,
          String.ofList n.chars⟩ := by
  obtain ⟨before, n, rest, hall, htake, htoken⟩ := exists_numeral_of_mem_scan hmem hkind
  exact ⟨before, n, rest, hall, Numeral.isLongest_of_eq_take htake, htoken⟩

end Token

end LinearProgram
