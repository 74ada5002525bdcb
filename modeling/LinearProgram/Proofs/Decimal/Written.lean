import LinearProgram.Layout
import LinearProgram.Proofs.Decimal.Numeral
import LinearProgram.Proofs.Decimal.ReadBack

/-!
# Written numbers

The text of a positive number in an LP file is a numeral, and the numeral reads back as
the number.  Digits in their places and digits with an exponent denote the same decimal,
except that zeros before the point are counted as digits when they are read.
-/

namespace LinearProgram

theorem digitsValue_eq_ofDigitChars (digits : List Char) :
    digitsValue digits = Nat.ofDigitChars 10 digits 0 :=
  rfl

theorem digitsValue_toDigits (n : Nat) : digitsValue (Nat.toDigits 10 n) = n := by
  rw [digitsValue_eq_ofDigitChars, Nat.ofDigitChars_ten_toDigits]

theorem digitsValue_append_zeros (digits : List Char) (n : Nat) :
    digitsValue (digits ++ List.replicate n '0') = digitsValue digits * Nat.pow 10 n := by
  rw [digitsValue_eq_ofDigitChars, Nat.ofDigitChars_append, Nat.ofDigitChars_replicate_zero,
    Nat.mul_comm]
  rfl

theorem digitsValue_zeros_append (digits : List Char) (n : Nat) :
    digitsValue (List.replicate n '0' ++ digits) = digitsValue digits := by
  rw [digitsValue_eq_ofDigitChars, Nat.ofDigitChars_append, Nat.ofDigitChars_replicate_zero,
    Nat.mul_zero]
  rfl

theorem isDigit_of_mem_zeros {n : Nat} {c : Char} (h : c ∈ List.replicate n '0') :
    c.isDigit = true := by
  rw [List.eq_of_mem_replicate h]
  decide

theorem isDigit_of_mem_toDigits {n : Nat} {c : Char} (h : c ∈ Nat.toDigits 10 n) :
    c.isDigit = true :=
  Nat.isDigit_of_mem_toDigits (by decide) (by decide) h

namespace Decimal

theorem isDigit_of_mem_digits {d : Decimal} {c : Char} (h : c ∈ d.digits) : c.isDigit = true :=
  isDigit_of_mem_toDigits h

theorem digits_ne_nil (d : Decimal) : d.digits ≠ [] :=
  Nat.toDigits_ne_nil

theorem digitsValue_digits (d : Decimal) : digitsValue d.digits = d.coefficient :=
  digitsValue_toDigits d.coefficient

theorem exists_numeral_of_nonneg {d : Decimal} (h : 0 ≤ d.exponent) :
    ∃ n : Numeral, n.chars = d.positionalText [] ∧
      n.decimal = ⟨d.coefficient * Nat.pow 10 d.exponent.toNat, 0⟩ := by
  let whole := d.digits ++ List.replicate d.exponent.toNat '0'
  have hwhole : ∀ c ∈ whole, c.isDigit = true := by
    intro c hc
    rcases List.mem_append.mp hc with hc | hc
    · exact isDigit_of_mem_digits hc
    · exact isDigit_of_mem_zeros hc
  have hne : whole ++ [] ≠ [] := by simp [whole, d.digits_ne_nil]
  refine ⟨⟨whole, none, none, hwhole, by simp, hne⟩, ?_, ?_⟩
  · simp [Numeral.chars, Numeral.fractionChars, Numeral.exponentChars, positionalText, h, whole]
  · simp [Numeral.decimal, whole, digitsValue_append_zeros, digitsValue_digits]

theorem exists_numeral_of_neg {d : Decimal} (h : d.exponent < 0) :
    ∃ n : Numeral, n.chars = d.positionalText [] ∧ n.decimal = d := by
  have hnot : ¬0 ≤ d.exponent := by omega
  have hplaces : -((-d.exponent).toNat : Int) = d.exponent := by omega
  have hpos : 0 < (-d.exponent).toNat := by omega
  rw [positionalText, if_neg hnot]
  generalize (-d.exponent).toNat = places at *
  dsimp only
  by_cases hwhole : d.digits.length - places = 0
  · -- All digits stand behind the point, after zeros.
    let fraction := List.replicate (places - d.digits.length) '0' ++ d.digits
    have hfraction : ∀ c ∈ fraction, c.isDigit = true := by
      intro c hc
      rcases List.mem_append.mp hc with hc | hc
      · exact isDigit_of_mem_zeros hc
      · exact isDigit_of_mem_digits hc
    have hlength : fraction.length = places := by
      simp only [fraction, List.length_append, List.length_replicate]
      omega
    have hvalue : digitsValue ('0' :: fraction) = d.coefficient := by
      have := digitsValue_zeros_append d.digits (places - d.digits.length + 1)
      rw [List.replicate_succ, List.cons_append, digitsValue_digits] at this
      exact this
    refine ⟨⟨['0'], some fraction, none, by simp, hfraction, by simp⟩, ?_, ?_⟩
    · simp [Numeral.chars, Numeral.fractionChars, Numeral.exponentChars, hwhole, fraction]
    · simp [Numeral.decimal, hvalue, hlength, hplaces]
  · let whole := d.digits.take (d.digits.length - places)
    let fraction := d.digits.drop (d.digits.length - places)
    have hsplit : whole ++ fraction = d.digits := List.take_append_drop _ _
    have hlength : fraction.length = places := by
      simp only [fraction, List.length_drop]
      omega
    have hdigits : ∀ c, c ∈ whole ∨ c ∈ fraction → c.isDigit = true := by
      intro c hc
      apply isDigit_of_mem_digits
      rw [← hsplit]
      exact List.mem_append.mpr hc
    have hne : whole ++ fraction ≠ [] := by
      rw [hsplit]
      exact d.digits_ne_nil
    refine ⟨⟨whole, some fraction, none, fun c hc => hdigits c (.inl hc),
      fun c hc => hdigits c (.inr hc), hne⟩, ?_, ?_⟩
    · simp [Numeral.chars, Numeral.fractionChars, Numeral.exponentChars, hwhole, whole, fraction]
    · simp [Numeral.decimal, hsplit, hlength, hplaces, digitsValue_digits]

/-- The exponent that the digits of a decimal are followed by. -/
def exponentPart (d : Decimal) : ExponentPart where
  letter := 'e'
  sign := if d.magnitudeExponent < 0 then ['-'] else []
  digits := Nat.toDigits 10 d.magnitudeExponent.natAbs
  letter_eq := .inl rfl
  sign_eq := by split <;> simp
  digits_ne_nil := Nat.toDigits_ne_nil
  isDigit_of_mem _ h := isDigit_of_mem_toDigits h

theorem value_exponentPart (d : Decimal) : d.exponentPart.value = d.magnitudeExponent := by
  rw [ExponentPart.value, exponentPart]
  dsimp only
  rw [digitsValue_toDigits]
  by_cases h : d.magnitudeExponent < 0
  · simp only [h, if_true]
    omega
  · simp only [h, if_false, List.nil_eq, reduceCtorEq]
    omega

theorem exists_numeral_scientificText (d : Decimal) :
    ∃ n : Numeral, n.chars = d.scientificText [] ∧ n.decimal = d := by
  have hvalue := d.value_exponentPart
  have hdigits := digitsValue_digits d
  have hmagnitude : d.magnitudeExponent = d.exponent + d.digits.length - 1 := rfl
  have hall : ∀ c ∈ d.digits, c.isDigit = true := fun c hc => isDigit_of_mem_digits hc
  obtain ⟨digit, fraction, hcons⟩ := List.exists_cons_of_ne_nil d.digits_ne_nil
  rw [hcons] at hall hdigits
  have hdigit : ∀ c ∈ [digit], c.isDigit = true := by
    intro c hc
    exact hall c (List.mem_cons.mpr (.inl (List.mem_singleton.mp hc)))
  cases fraction with
  | nil =>
      have hexponent : d.magnitudeExponent = d.exponent := by
        rw [hmagnitude, hcons]
        simp
      refine ⟨⟨[digit], none, some d.exponentPart, hdigit, by simp, by simp⟩, ?_, ?_⟩
      · simp [Numeral.chars, Numeral.fractionChars, Numeral.exponentChars, scientificText, hcons,
          ExponentPart.chars, exponentPart]
      · simp [Numeral.decimal, hvalue, hdigits, hexponent]
  | cons second fraction =>
      have hfraction : ∀ c ∈ second :: fraction, c.isDigit = true := by
        intro c hc
        exact hall c (List.mem_cons_of_mem digit hc)
      have hexponent : d.magnitudeExponent - ((second :: fraction).length : Int) = d.exponent := by
        rw [hmagnitude, hcons]
        simp only [List.length_cons]
        omega
      refine ⟨⟨[digit], some (second :: fraction), some d.exponentPart, hdigit, hfraction,
        by simp⟩, ?_, ?_⟩
      · simp [Numeral.chars, Numeral.fractionChars, Numeral.exponentChars, scientificText, hcons,
          ExponentPart.chars, exponentPart]
      · simp only [Numeral.decimal, Option.getD_some, Option.elim_some, hvalue, hexponent]
        rw [List.singleton_append, hdigits]

theorem toBinary64_of_nonneg {d : Decimal} (hcoefficient : d.coefficient ≠ 0)
    (hnonneg : 0 ≤ d.exponent) (hle : d.exponent ≤ 309) (negative : Bool) :
    d.toBinary64 negative =
      .ofRatio negative (d.coefficient * Nat.pow 10 d.exponent.toNat * unitQuanta) 1 := by
  have hlarge : ¬309 < d.exponent := by omega
  have hsmall : ¬d.exponent + d.coefficient.log2 < -330 := by omega
  rw [toBinary64, if_neg hcoefficient, if_neg hlarge, if_neg hsmall, if_pos hnonneg]

/-- Zeros before the point may be counted as digits. -/
theorem toBinary64_mul_pow {d : Decimal} (hnonneg : 0 ≤ d.exponent) (hle : d.exponent ≤ 309)
    (negative : Bool) :
    (⟨d.coefficient * Nat.pow 10 d.exponent.toNat, 0⟩ : Decimal).toBinary64 negative =
      d.toBinary64 negative := by
  by_cases hzero : d.coefficient = 0
  · simp [toBinary64, hzero]
  · have hne : d.coefficient * Nat.pow 10 d.exponent.toNat ≠ 0 :=
      Nat.mul_ne_zero hzero (Nat.ne_of_gt (Nat.pow_pos (by decide)))
    rw [toBinary64_of_nonneg hzero hnonneg hle,
      toBinary64_of_nonneg hne (Int.le_refl 0) (Int.ofNat_le.mpr (Nat.zero_le 309))]
    simp

theorem exists_numeral_decimalText (d : Decimal) :
    ∃ n : Numeral, n.chars = NumberStyle.lp.decimalText d ∧
      n.decimal.toBinary64 false = d.toBinary64 false := by
  rw [NumberStyle.decimalText]
  by_cases hpositional : NumberStyle.lp.isPositional d.magnitudeExponent = true
  · rw [if_pos hpositional]
    by_cases hnonneg : 0 ≤ d.exponent
    · obtain ⟨n, hchars, hdecimal⟩ := exists_numeral_of_nonneg hnonneg
      have hbound : d.magnitudeExponent < 15 := by
        simp only [NumberStyle.lp, Bool.and_eq_true, decide_eq_true_eq] at hpositional
        exact hpositional.2
      have hle : d.exponent ≤ 309 := by
        have hlength := List.length_pos_iff.mpr d.digits_ne_nil
        rw [magnitudeExponent] at hbound
        omega
      refine ⟨n, hchars, ?_⟩
      rw [hdecimal]
      exact toBinary64_mul_pow hnonneg hle false
    · obtain ⟨n, hchars, hdecimal⟩ := exists_numeral_of_neg (by omega : d.exponent < 0)
      exact ⟨n, hchars, congrArg (toBinary64 false) hdecimal⟩
  · rw [if_neg hpositional]
    obtain ⟨n, hchars, hdecimal⟩ := d.exists_numeral_scientificText
    exact ⟨n, hchars, congrArg (toBinary64 false) hdecimal⟩

end Decimal

/-- A number that is not negative is written as a numeral that reads back as the number. -/
theorem exists_numeral_lpNumber (m : Magnitude) :
    ∃ n : Numeral, n.chars = lpNumber (.finite false m) ∧
      Binary64.ofNumeral? n.chars = some (.finite false m) := by
  obtain ⟨n, hchars, hvalue⟩ := Decimal.exists_numeral_decimalText (Decimal.shortest .toLarger m)
  refine ⟨n, hchars, ?_⟩
  rw [Binary64.ofNumeral?, n.ofNumeral?_chars, Option.map_some, hvalue, Decimal.toBinary64_shortest]

theorem lpNumber_finite (negative : Bool) (m : Magnitude) :
    lpNumber (.finite negative m) =
      if negative && m.quanta != 0 then '-' :: lpNumber (.finite false m)
      else lpNumber (.finite false m) := by
  cases negative <;> simp [lpNumber, NumberStyle.render, NumberStyle.lp]

end LinearProgram
