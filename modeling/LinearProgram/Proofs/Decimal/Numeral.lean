import LinearProgram.Decimal.Basic
import LinearProgram.Token.Extent

/-!
# Numerals

An unsigned numeral is digits, a point with further digits, and an exponent, of which
only some digit before the exponent has to be there.  The scanner and the reader of
numbers find these parts on their own.  `numeralExtent_append` says that the scanner
takes exactly a numeral when what follows separates it, and `ofNumeral?_chars` that the
reader then finds the decimal that the parts denote.
-/

namespace LinearProgram

/-- What can stand behind a name or a numeral without being a part of it. -/
def Separates : List Char → Prop
  | [] => True
  | c :: _ => c = ' ' ∨ c = '\n' ∨ c = ':'

@[simp] theorem separates_nil : Separates [] := trivial

@[simp] theorem separates_space (rest : List Char) : Separates (' ' :: rest) := .inl rfl

@[simp] theorem separates_newline (rest : List Char) : Separates ('\n' :: rest) := .inr (.inl rfl)

@[simp] theorem separates_colon (rest : List Char) : Separates (':' :: rest) := .inr (.inr rfl)

theorem digitsExtent_append {digits : List Char} (hdigits : ∀ c ∈ digits, c.isDigit = true)
    (rest : List Char) :
    digitsExtent (digits ++ rest) = digits.length + digitsExtent rest := by
  unfold digitsExtent
  rw [List.takeWhile_append_of_pos hdigits, List.length_append]

theorem digitsExtent_eq_zero {c : Char} (hc : c.isDigit = false) (rest : List Char) :
    digitsExtent (c :: rest) = 0 := by
  simp [digitsExtent, hc]

theorem Separates.digitsExtent_eq_zero {rest : List Char} (h : Separates rest) :
    digitsExtent rest = 0 := by
  cases rest with
  | nil => rfl
  | cons c rest =>
      rcases h with rfl | rfl | rfl <;> exact LinearProgram.digitsExtent_eq_zero (by decide) rest

/-- The exponent of a numeral as it is written. -/
structure ExponentPart where
  letter : Char
  sign : List Char
  digits : List Char
  letter_eq : letter = 'e' ∨ letter = 'E'
  sign_eq : sign = [] ∨ sign = ['+'] ∨ sign = ['-']
  digits_ne_nil : digits ≠ []
  isDigit_of_mem : ∀ c ∈ digits, c.isDigit = true

namespace ExponentPart

def chars (exponent : ExponentPart) : List Char :=
  exponent.letter :: (exponent.sign ++ exponent.digits)

def value (exponent : ExponentPart) : Int :=
  if exponent.sign = ['-'] then -(digitsValue exponent.digits : Int)
  else digitsValue exponent.digits

theorem exists_digits_eq_cons (exponent : ExponentPart) :
    ∃ c cs, exponent.digits = c :: cs ∧ c.isDigit = true ∧ c ≠ '+' ∧ c ≠ '-' := by
  obtain ⟨c, cs, hcons⟩ := List.exists_cons_of_ne_nil exponent.digits_ne_nil
  have hc : c.isDigit = true := exponent.isDigit_of_mem c (by simp [hcons])
  refine ⟨c, cs, hcons, hc, ?_, ?_⟩ <;> rintro rfl <;> exact absurd hc (by decide)

theorem signedDigitsExtent_append (exponent : ExponentPart) (rest : List Char) :
    signedDigitsExtent (exponent.sign ++ exponent.digits ++ rest) =
      exponent.sign.length + (exponent.digits.length + digitsExtent rest) := by
  have hextent := digitsExtent_append exponent.isDigit_of_mem rest
  have hne := exponent.digits_ne_nil
  rcases exponent.sign_eq with hsign | hsign | hsign
  · obtain ⟨c, cs, hcons, -, hplus, hminus⟩ := exponent.exists_digits_eq_cons
    rw [hcons] at hextent ⊢
    simpa [hsign, signedDigitsExtent, hplus, hminus] using hextent
  · simp [hsign, signedDigitsExtent, hextent, hne]
  · simp [hsign, signedDigitsExtent, hextent, hne]

/-- An exponent is taken as a whole, with the digits behind it. -/
theorem exponentExtent_append (exponent : ExponentPart) (rest : List Char) :
    exponentExtent (exponent.chars ++ rest) = exponent.chars.length + digitsExtent rest := by
  have hsigned := exponent.signedDigitsExtent_append rest
  have hne : exponent.sign.length + (exponent.digits.length + digitsExtent rest) ≠ 0 := by
    have := List.length_pos_iff.mpr exponent.digits_ne_nil
    omega
  have hletter : (exponent.letter = 'e' || exponent.letter = 'E') = true := by
    simpa using exponent.letter_eq
  simp only [chars, List.cons_append, exponentExtent]
  rw [hsigned]
  simp only [hletter, hne, ne_eq, not_false_eq_true, decide_true, Bool.and_true, if_true,
    List.length_cons, List.length_append]
  omega

theorem exponentOfDigits?_eq (exponent : ExponentPart) :
    Decimal.exponentOfDigits? (exponent.sign ++ exponent.digits) = some exponent.value := by
  have hall : exponent.digits.all Char.isDigit = true := by
    simpa using exponent.isDigit_of_mem
  have hempty : exponent.digits.isEmpty = false := by
    simpa using exponent.digits_ne_nil
  rcases exponent.sign_eq with hsign | hsign | hsign
  · obtain ⟨c, cs, hcons, -, hplus, hminus⟩ := exponent.exists_digits_eq_cons
    unfold Decimal.exponentOfDigits? value
    rw [hcons] at hall hempty ⊢
    simp only [hsign, List.nil_append]
    split
    · next h => exact absurd (List.cons.inj h).1 hplus
    · next h => exact absurd (List.cons.inj h).1 hminus
    · simp [hall]
  · simp [hsign, Decimal.exponentOfDigits?, hall, hempty, value]
  · simp [hsign, Decimal.exponentOfDigits?, hall, hempty, value]

theorem exponentPart?_chars (exponent : ExponentPart) :
    Decimal.exponentPart? exponent.chars = some exponent.value := by
  have hletter : (exponent.letter = 'e' || exponent.letter = 'E') = true := by
    simpa using exponent.letter_eq
  simp only [chars, Decimal.exponentPart?, hletter, if_true]
  exact exponent.exponentOfDigits?_eq

end ExponentPart

/-- The parts of an unsigned numeral, with a digit before the exponent. -/
structure Numeral where
  whole : List Char
  /-- The digits after a point, if there is a point. -/
  fraction : Option (List Char)
  exponent : Option ExponentPart
  isDigit_of_mem_whole : ∀ c ∈ whole, c.isDigit = true
  isDigit_of_mem_fraction : ∀ c ∈ fraction.getD [], c.isDigit = true
  digits_ne_nil : whole ++ fraction.getD [] ≠ []

namespace Numeral

def fractionChars (n : Numeral) : List Char :=
  match n.fraction with
  | none => []
  | some digits => '.' :: digits

def exponentChars (n : Numeral) : List Char :=
  match n.exponent with
  | none => []
  | some exponent => exponent.chars

/-- The written form of a numeral. -/
def chars (n : Numeral) : List Char :=
  n.whole ++ (n.fractionChars ++ n.exponentChars)

/-- The decimal that a numeral denotes. -/
def decimal (n : Numeral) : Decimal where
  coefficient := digitsValue (n.whole ++ n.fraction.getD [])
  exponent := (n.exponent.elim 0 ExponentPart.value) - (n.fraction.getD []).length

theorem exponentExtent_exponentChars_append (n : Numeral) {rest : List Char}
    (h : Separates rest) :
    exponentExtent (n.exponentChars ++ rest) = n.exponentChars.length := by
  rw [exponentChars]
  cases n.exponent with
  | some exponent =>
      exact (exponent.exponentExtent_append rest).trans (by rw [h.digitsExtent_eq_zero]; rfl)
  | none =>
      cases rest with
      | nil => rfl
      | cons c rest => rcases h with rfl | rfl | rfl <;> simp [exponentExtent]

/-- Behind the digits of a numeral stands no further digit and no point. -/
theorem exponentChars_append_cases (n : Numeral) {rest : List Char} (h : Separates rest) :
    n.exponentChars ++ rest = [] ∨
      ∃ c cs, n.exponentChars ++ rest = c :: cs ∧ c.isDigit = false ∧ c ≠ '.' := by
  rw [exponentChars]
  cases n.exponent with
  | some exponent =>
      refine .inr ⟨_, _, rfl, ?_⟩
      rcases exponent.letter_eq with hletter | hletter <;> rw [hletter] <;> decide
  | none =>
      cases rest with
      | nil => exact .inl rfl
      | cons c rest =>
          refine .inr ⟨c, rest, rfl, ?_⟩
          rcases h with rfl | rfl | rfl <;> decide

theorem digitsExtent_exponentChars_append (n : Numeral) {rest : List Char}
    (h : Separates rest) : digitsExtent (n.exponentChars ++ rest) = 0 := by
  rcases n.exponentChars_append_cases h with hnil | ⟨c, cs, hcons, hc, -⟩
  · rw [hnil]
    rfl
  · rw [hcons]
    exact digitsExtent_eq_zero hc cs

theorem fractionExtent_append (n : Numeral) {rest : List Char} (h : Separates rest) :
    fractionExtent (n.fractionChars ++ (n.exponentChars ++ rest)) = n.fractionChars.length := by
  have hzero := n.digitsExtent_exponentChars_append h
  have hdigits := n.isDigit_of_mem_fraction
  have hcases := n.exponentChars_append_cases h
  rw [fractionChars]
  generalize n.exponentChars ++ rest = behind at *
  cases hfraction : n.fraction with
  | none =>
      rcases hcases with rfl | ⟨c, cs, rfl, -, hc⟩
      · rfl
      · simp only [List.nil_append, List.length_nil]
        unfold fractionExtent
        split
        · next hpoint => exact absurd (List.cons.inj hpoint).1 hc
        · rfl
  | some digits =>
      rw [hfraction, Option.getD_some] at hdigits
      simp only [List.cons_append, fractionExtent, List.length_cons]
      rw [digitsExtent_append hdigits, hzero]
      omega

theorem digitsExtent_behind_whole (n : Numeral) {rest : List Char} (h : Separates rest) :
    digitsExtent (n.fractionChars ++ (n.exponentChars ++ rest)) = 0 := by
  have hzero := n.digitsExtent_exponentChars_append h
  rw [fractionChars]
  cases n.fraction with
  | none => exact hzero
  | some digits => exact digitsExtent_eq_zero (by decide) _

/-- Scanning takes the whole of a numeral and nothing behind it. -/
theorem numeralExtent_append (n : Numeral) {rest : List Char} (h : Separates rest) :
    numeralExtent (n.chars ++ rest) = n.chars.length := by
  have hwhole : digitsExtent (n.chars ++ rest) = n.whole.length := by
    rw [chars, List.append_assoc, List.append_assoc, digitsExtent_append n.isDigit_of_mem_whole,
      n.digitsExtent_behind_whole h, Nat.add_zero]
  have hbehind : (n.chars ++ rest).drop n.whole.length =
      n.fractionChars ++ (n.exponentChars ++ rest) := by
    rw [chars, List.append_assoc, List.append_assoc, List.drop_left]
  have hexponent : (n.chars ++ rest).drop (n.whole.length + n.fractionChars.length) =
      n.exponentChars ++ rest := by
    rw [← List.drop_drop, hbehind, List.drop_left]
  unfold numeralExtent
  dsimp only
  rw [hwhole, hbehind, n.fractionExtent_append h, hexponent,
    n.exponentExtent_exponentChars_append h]
  simp only [chars, List.length_append]
  omega

/-- A numeral begins with a digit, or with a point before a digit. -/
theorem exists_chars_eq_cons (n : Numeral) :
    ∃ c cs, n.chars = c :: cs ∧ ∀ rest, startsNumeral c (cs ++ rest) = true := by
  have hwhole := n.isDigit_of_mem_whole
  have hfraction := n.isDigit_of_mem_fraction
  have hne := n.digits_ne_nil
  rw [chars, fractionChars]
  cases hw : n.whole with
  | cons c cs =>
      have hc : c.isDigit = true := hwhole c (by simp [hw])
      exact ⟨c, _, rfl, fun rest => by simp [startsNumeral, hc]⟩
  | nil =>
      rw [hw] at hne
      cases hf : n.fraction with
      | none => simp [hf] at hne
      | some digits =>
          rw [hf, Option.getD_some] at hfraction hne
          have hpos : digits.length ≠ 0 := by simpa using hne
          refine ⟨'.', digits ++ n.exponentChars, rfl, ?_⟩
          intro rest
          rw [List.append_assoc]
          simp [startsNumeral, digitsExtent_append hfraction, hpos]

theorem takeWhile_whole_append {digits behind : List Char}
    (hdigits : ∀ c ∈ digits, c.isDigit = true) (hbehind : digitsExtent behind = 0) :
    (digits ++ behind).takeWhile Char.isDigit = digits ∧
      (digits ++ behind).dropWhile Char.isDigit = behind := by
  have hnil : behind.takeWhile Char.isDigit = [] := List.eq_nil_of_length_eq_zero hbehind
  constructor
  · rw [List.takeWhile_append_of_pos hdigits, hnil, List.append_nil]
  · have hdrop := List.takeWhile_append_dropWhile (p := Char.isDigit) (l := behind)
    rw [List.dropWhile_append_of_pos hdigits]
    rw [hnil] at hdrop
    exact hdrop

theorem fractionPart_fractionChars_append (n : Numeral) :
    Decimal.fractionPart (n.fractionChars ++ n.exponentChars) =
      (n.fraction.getD [], n.exponentChars) := by
  have hcases := n.exponentChars_append_cases separates_nil
  have hzero := n.digitsExtent_exponentChars_append separates_nil
  have hdigits := n.isDigit_of_mem_fraction
  rw [List.append_nil] at hcases hzero
  rw [fractionChars]
  generalize n.exponentChars = behind at *
  cases hfraction : n.fraction with
  | none =>
      rcases hcases with rfl | ⟨c, cs, rfl, -, hc⟩
      · rfl
      · simp only [List.nil_append, Option.getD_none]
        unfold Decimal.fractionPart
        split
        · next hpoint => exact absurd (List.cons.inj hpoint).1 hc
        · rfl
  | some digits =>
      rw [hfraction, Option.getD_some] at hdigits
      obtain ⟨htake, hdrop⟩ := takeWhile_whole_append hdigits hzero
      simp only [List.cons_append, Decimal.fractionPart, Option.getD_some]
      rw [htake, hdrop]

theorem exponentPart?_exponentChars (n : Numeral) :
    Decimal.exponentPart? n.exponentChars = some (n.exponent.elim 0 ExponentPart.value) := by
  rw [exponentChars]
  cases n.exponent with
  | none => rfl
  | some exponent => exact exponent.exponentPart?_chars

/-- The reader of numbers finds the decimal that the parts of a numeral denote. -/
theorem ofNumeral?_chars (n : Numeral) : Decimal.ofNumeral? n.chars = some n.decimal := by
  have hbehind := n.digitsExtent_behind_whole separates_nil
  rw [List.append_nil] at hbehind
  obtain ⟨htake, hdrop⟩ := takeWhile_whole_append n.isDigit_of_mem_whole hbehind
  have hne : (n.whole.isEmpty && (n.fraction.getD []).isEmpty) = false := by
    have := n.digits_ne_nil
    cases hwhole : n.whole <;> simp_all
  rw [Decimal.ofNumeral?, chars, htake, hdrop, n.fractionPart_fractionChars_append]
  simp only [hne, n.exponentPart?_exponentChars, Option.map_some]
  rfl

end Numeral

end LinearProgram
