import LinearProgram.Proofs.Decimal.Numeral
import LinearProgram.Proofs.Token.Tiling

/-!
# Number tokens are numerals

The scanner takes digits, a point with digits and an exponent as far as they go.  What it
takes as a number is a numeral, so it denotes a value.  The main statement is
`Token.exists_value_of_mem_scan`.
-/

namespace LinearProgram

open String (utf8Len)

/-! ## The parts of a numeral -/

theorem take_digitsExtent (cs : List Char) :
    cs.take (digitsExtent cs) = cs.takeWhile Char.isDigit :=
  (List.prefix_iff_eq_take.mp (List.takeWhile_prefix _)).symm

theorem isDigit_of_mem_take {cs : List Char} {c : Char} (h : c ∈ cs.take (digitsExtent cs)) :
    c.isDigit = true := by
  rw [take_digitsExtent] at h
  exact List.mem_takeWhile_imp h

theorem take_digitsExtent_ne_nil {cs : List Char} (h : digitsExtent cs ≠ 0) :
    cs.take (digitsExtent cs) ≠ [] := by
  rw [take_digitsExtent]
  exact fun hnil => h (congrArg List.length hnil)

/-- A point and the digits after it are the fraction of a numeral. -/
theorem exists_fraction (cs : List Char) :
    ∃ fraction : Option (List Char),
      cs.take (fractionExtent cs) = fraction.elim [] ('.' :: ·) ∧
        ∀ c ∈ fraction.getD [], c.isDigit = true := by
  unfold fractionExtent
  split
  · next later =>
      refine ⟨some (later.take (digitsExtent later)), ?_, fun c hc => isDigit_of_mem_take hc⟩
      rw [Nat.add_comm, List.take_succ_cons]
      rfl
  · exact ⟨none, rfl, fun c hc => absurd hc List.not_mem_nil⟩

/-- What is taken behind the letter of an exponent is a sign and digits. -/
theorem exists_signedDigits {cs : List Char} (h : signedDigitsExtent cs ≠ 0) :
    ∃ sign digits, cs.take (signedDigitsExtent cs) = sign ++ digits ∧
      (sign = [] ∨ sign = ['+'] ∨ sign = ['-']) ∧ digits ≠ [] ∧
        ∀ c ∈ digits, c.isDigit = true := by
  cases cs with
  | nil => exact absurd rfl h
  | cons c cs =>
      rw [signedDigitsExtent] at h ⊢
      by_cases hsign : c = '+' ∨ c = '-'
      · have hsign' : (decide (c = '+') || decide (c = '-')) = true := by simpa using hsign
        rw [if_pos hsign'] at h ⊢
        have hsome : digitsExtent cs ≠ 0 := fun hzero => h (if_pos hzero)
        rw [if_neg hsome, Nat.add_comm, List.take_succ_cons]
        refine ⟨[c], cs.take (digitsExtent cs), rfl, .inr ?_, take_digitsExtent_ne_nil hsome,
          fun d hd => isDigit_of_mem_take hd⟩
        exact hsign.imp (congrArg ([·])) (congrArg ([·]))
      · have hsign' : ¬(decide (c = '+') || decide (c = '-')) = true := by simpa using hsign
        rw [if_neg hsign'] at h ⊢
        exact ⟨[], _, rfl, .inl rfl, take_digitsExtent_ne_nil h, fun d hd => isDigit_of_mem_take hd⟩

/-- What is taken as an exponent is one. -/
theorem exists_exponent (cs : List Char) :
    ∃ exponent : Option ExponentPart,
      cs.take (exponentExtent cs) = exponent.elim [] ExponentPart.chars := by
  cases cs with
  | nil => exact ⟨none, rfl⟩
  | cons c cs =>
      rw [exponentExtent]
      split
      · next hletter =>
          rw [Bool.and_eq_true, decide_eq_true_eq] at hletter
          obtain ⟨sign, digits, htake, hsign, hne, hdigits⟩ := exists_signedDigits hletter.2
          refine ⟨some ⟨c, sign, digits, by simpa using hletter.1, hsign, hne, hdigits⟩, ?_⟩
          rw [Nat.add_comm, List.take_succ_cons, htake]
          rfl
      · exact ⟨none, rfl⟩

/-! ## Numerals -/

/-- What is taken where a numeral begins is a numeral. -/
theorem exists_numeral {c : Char} {cs : List Char} (h : startsNumeral c cs = true) :
    ∃ n : Numeral, (c :: cs).take (numeralExtent (c :: cs)) = n.chars := by
  let whole := digitsExtent (c :: cs)
  obtain ⟨fraction, hfraction, hdigits⟩ := exists_fraction ((c :: cs).drop whole)
  obtain ⟨exponent, hexponent⟩ := exists_exponent
    ((c :: cs).drop (whole + fractionExtent ((c :: cs).drop whole)))
  have hne : (c :: cs).take whole ++ fraction.getD [] ≠ [] := by
    rw [startsNumeral, Bool.or_eq_true, Bool.and_eq_true, decide_eq_true_eq,
      decide_eq_true_eq] at h
    rcases h with hc | ⟨rfl, hlater⟩
    · have hwhole : whole ≠ 0 := by simp [whole, digitsExtent, hc]
      exact List.append_ne_nil_of_left_ne_nil (take_digitsExtent_ne_nil hwhole) _
    · have hnone : whole = 0 := digitsExtent_eq_zero (by decide) cs
      rw [hnone, List.drop_zero, fractionExtent, Nat.add_comm, List.take_succ_cons] at hfraction
      cases fraction with
      | none => cases hfraction
      | some digits =>
          have heq : cs.take (digitsExtent cs) = digits := (List.cons.inj hfraction).2
          rw [Option.getD_some, ← heq]
          exact List.append_ne_nil_of_right_ne_nil _ (take_digitsExtent_ne_nil hlater)
  refine ⟨⟨(c :: cs).take whole, fraction, exponent, fun d hd => isDigit_of_mem_take hd, hdigits,
    hne⟩, ?_⟩
  rw [numeralExtent, List.take_add, List.take_add, hfraction, hexponent, Numeral.chars,
    List.append_assoc]
  cases fraction <;> cases exponent <;> rfl

theorem numeralExtent_pos {c : Char} {cs : List Char} (h : startsNumeral c cs = true) :
    0 < numeralExtent (c :: cs) := by
  obtain ⟨n, hn⟩ := exists_numeral h
  obtain ⟨d, ds, hchars, -⟩ := n.exists_chars_eq_cons
  refine Nat.pos_of_ne_zero fun hzero => ?_
  rw [hzero, List.take_zero, hchars] at hn
  cases hn

/-! ## Tokens -/

namespace Token

/-- A lexeme that is a number only where a numeral begins, and then takes the numeral. -/
def TakesNumeral (c : Char) (cs : List Char) (found : TokenKind × Nat) : Prop :=
  found.1 = .number → startsNumeral c cs = true ∧ found.2 + 1 = numeralExtent (c :: cs)

theorem takesNumeral_of_ne {c : Char} {cs : List Char} {kind : TokenKind} {n : Nat}
    (hkind : kind ≠ .number) : TakesNumeral c cs (kind, n) :=
  fun heq => absurd heq hkind

theorem TakesNumeral.ite {c : Char} {cs : List Char} {p : Prop} [Decidable p]
    {found found' : TokenKind × Nat} (h : p → TakesNumeral c cs found)
    (h' : TakesNumeral c cs found') : TakesNumeral c cs (if p then found else found') :=
  iteInduction h fun _ => h'

theorem takesNumeral_lexemeOf (c : Char) (cs : List Char) :
    TakesNumeral c cs (lexemeOf c cs) := by
  rw [lexemeOf]
  refine .ite (fun _ => takesNumeral_of_ne TokenKind.noConfusion) ?_
  refine .ite (fun _ => takesNumeral_of_ne TokenKind.noConfusion) ?_
  refine .ite (fun _ => takesNumeral_of_ne TokenKind.noConfusion) ?_
  refine .ite (fun _ => takesNumeral_of_ne TokenKind.noConfusion) ?_
  refine .ite (fun _ => takesNumeral_of_ne TokenKind.noConfusion) ?_
  refine .ite (fun _ => takesNumeral_of_ne TokenKind.noConfusion) ?_
  refine .ite (fun _ => takesNumeral_of_ne TokenKind.noConfusion) ?_
  refine .ite (fun _ => ?_) ?_
  · refine .ite (fun _ => takesNumeral_of_ne TokenKind.noConfusion) ?_
    refine .ite (fun _ => takesNumeral_of_ne TokenKind.noConfusion) ?_
    exact takesNumeral_of_ne TokenKind.noConfusion
  refine .ite (fun hstarts _ => ⟨hstarts, Nat.sub_add_cancel (numeralExtent_pos hstarts)⟩) ?_
  refine .ite (fun _ => takesNumeral_of_ne TokenKind.noConfusion) ?_
  exact takesNumeral_of_ne TokenKind.noConfusion

/-- Every number token is a numeral, which the scanner takes where its text begins. -/
theorem exists_numeral_of_mem_scan {source : String} {token : Token}
    (hmem : token ∈ scan source) (hkind : token.kind = .number) :
    ∃ (before : List Char) (n : Numeral) (rest : List Char),
      source.toList = before ++ (n.chars ++ rest) ∧
        n.chars = (n.chars ++ rest).take (numeralExtent (n.chars ++ rest)) ∧
        token = ⟨.number, ⟨utf8Len before, utf8Len (before ++ n.chars)⟩,
          String.ofList n.chars⟩ := by
  obtain ⟨before, c, rest, hall, rfl⟩ := exists_lexeme_of_mem_scanFrom 0 source.toList [] rfl token
    hmem (by simp [hkind])
  obtain ⟨hstarts, hextent⟩ := takesNumeral_lexemeOf c rest hkind
  obtain ⟨n, hn⟩ := exists_numeral hstarts
  have hchars : c :: rest.take (lexemeOf c rest).2 = n.chars := by
    rw [← hn, ← hextent, List.take_succ_cons]
  have hsplit : n.chars ++ rest.drop (lexemeOf c rest).2 = c :: rest := by
    rw [← hchars, List.cons_append, List.take_append_drop]
  refine ⟨before, n, rest.drop (lexemeOf c rest).2, ?_, ?_, ?_⟩
  · rw [hsplit]
    exact hall
  · rw [hsplit, hn]
  · rw [hchars]
    exact congrArg (Token.mk · _ _) hkind

/-- Every number token of a text denotes a value. -/
theorem exists_value_of_mem_scan {source : String} {token : Token} (hmem : token ∈ scan source)
    (hkind : token.kind = .number) :
    ∃ value, Binary64.ofNumeral? token.text.toList = some value := by
  obtain ⟨before, n, rest, -, -, rfl⟩ := exists_numeral_of_mem_scan hmem hkind
  rw [Binary64.ofNumeral?, String.toList_ofList, n.ofNumeral?_chars]
  exact ⟨_, rfl⟩

end Token

end LinearProgram
