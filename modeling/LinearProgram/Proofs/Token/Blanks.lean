import LinearProgram.Proofs.Name.Spelling
import LinearProgram.Text.Blank
import Mathlib.Data.List.TakeWhile

/-!
# Lexemes before blanks

What follows a blank does not matter to the lexeme in front of it, with one exception:
an identifier whose brackets are still open takes every blank up to the end of the line.
A blank that the scanner does not skip is an invalid token by itself.  The main statements
are `lexemeOf_append_cases` and `lexemeOf_of_isBlank`.
-/

namespace LinearProgram

/-! ## Blanks -/

/-- The code points of the blanks, one by one. -/
def blankCodes : List Nat :=
  [0x9, 0xA, 0xB, 0xC, 0xD, 0x20, 0x85, 0xA0, 0x1680, 0x2000, 0x2001, 0x2002, 0x2003, 0x2004,
   0x2005, 0x2006, 0x2007, 0x2008, 0x2009, 0x200A, 0x2028, 0x2029, 0x202F, 0x205F, 0x3000]

theorem mem_blankCodes_of_isBlank {c : Char} (h : isBlank c = true) : c.toNat ∈ blankCodes := by
  rw [isBlank, CodeRanges.covers] at h
  generalize c.toNat = code at h ⊢
  simp only [blankRanges, CodeRanges.coversCode, Bool.if_false_left, Bool.if_true_left,
    Bool.and_eq_true, Bool.or_eq_true, Bool.not_eq_true', decide_eq_true_eq,
    decide_eq_false_iff_not, Bool.or_false] at h
  simp only [blankCodes, List.mem_cons, List.not_mem_nil, or_false]
  omega

theorem isIdentChar_of_isBlank {c : Char} (h : isBlank c = true) : isIdentChar c = false := by
  have hcodes : ∀ code ∈ blankCodes, isIdentChar (Char.ofNat code) = false := by decide +kernel
  have hc := hcodes _ (mem_blankCodes_of_isBlank h)
  rwa [Char.ofNat_toNat] at hc

theorem ne_of_isBlank {c d : Char} (hc : isBlank c = true) (hd : isBlank d = false) : c ≠ d := by
  rintro rfl
  exact Bool.noConfusion (hc.symm.trans hd)

/-- A text that goes on with a blank if it goes on. -/
def BeginsBlank (cs : List Char) : Prop :=
  ∀ c ∈ cs.head?, isBlank c = true

theorem BeginsBlank.ne {c d : Char} {cs : List Char} (h : BeginsBlank (c :: cs))
    (hd : isBlank d = false) : c ≠ d :=
  ne_of_isBlank (h c rfl) hd

theorem BeginsBlank.head?_ne {cs : List Char} (h : BeginsBlank cs) {d : Char}
    (hd : isBlank d = false) : cs.head? ≠ some d := by
  intro hhead
  exact Bool.noConfusion ((h d hhead).symm.trans hd)

theorem beginsBlank_newline (cs : List Char) : BeginsBlank ('\n' :: cs) := by
  intro c hc
  rw [← Option.some.inj hc]
  decide

/-! ## Lexemes before a blank -/

theorem isDigit_of_isBlank {c : Char} (h : isBlank c = true) : c.isDigit = false := by
  rw [Bool.eq_false_iff]
  intro hdigit
  have hident : isIdentChar c = true := by
    rw [isIdentChar, isAlphanumeric_of_isAlphanum (by rw [Char.isAlphanum, hdigit, Bool.or_true]),
      Bool.true_or]
  exact Bool.noConfusion ((isIdentChar_of_isBlank h).symm.trans hident)

section Extents

variable {rest : List Char}

theorem digitsExtent_append_blank (h : BeginsBlank rest) (cs : List Char) :
    digitsExtent (cs ++ rest) = digitsExtent cs := by
  induction cs with
  | nil =>
      cases rest with
      | nil => rfl
      | cons c rest => exact digitsExtent_eq_zero (isDigit_of_isBlank (h c rfl)) rest
  | cons c cs ih =>
      rw [digitsExtent, digitsExtent] at ih ⊢
      rw [List.cons_append, List.takeWhile_cons, List.takeWhile_cons]
      split
      · rw [List.length_cons, List.length_cons, ih]
      · rfl

theorem digitsExtent_le (cs : List Char) : digitsExtent cs ≤ cs.length :=
  (List.takeWhile_sublist _).length_le

theorem fractionExtent_append_blank (h : BeginsBlank rest) (cs : List Char) :
    fractionExtent (cs ++ rest) = fractionExtent cs := by
  cases cs with
  | nil =>
      cases rest with
      | nil => rfl
      | cons c rest =>
          have hpoint := h.ne (d := '.') (by decide)
          simp [fractionExtent, hpoint]
  | cons c cs =>
      by_cases hpoint : c = '.'
      · simp only [hpoint, List.cons_append, fractionExtent, digitsExtent_append_blank h]
      · simp [fractionExtent, hpoint]

theorem fractionExtent_le (cs : List Char) : fractionExtent cs ≤ cs.length := by
  rw [fractionExtent.eq_def]
  split
  · next cs =>
      have hdigits := digitsExtent_le cs
      rw [List.length_cons]
      omega
  · exact Nat.zero_le _

theorem signedDigitsExtent_append_blank (h : BeginsBlank rest) (cs : List Char) :
    signedDigitsExtent (cs ++ rest) = signedDigitsExtent cs := by
  cases cs with
  | nil =>
      cases rest with
      | nil => rfl
      | cons c rest =>
          have hplus := h.ne (d := '+') (by decide)
          have hminus := h.ne (d := '-') (by decide)
          change signedDigitsExtent (c :: rest) = 0
          rw [signedDigitsExtent, decide_eq_false hplus, decide_eq_false hminus]
          exact digitsExtent_eq_zero (isDigit_of_isBlank (h c rfl)) rest
  | cons c cs =>
      have hdigits := digitsExtent_append_blank h (c :: cs)
      rw [List.cons_append] at hdigits ⊢
      rw [signedDigitsExtent, signedDigitsExtent, digitsExtent_append_blank h, hdigits]

theorem signedDigitsExtent_le (cs : List Char) : signedDigitsExtent cs ≤ cs.length := by
  cases cs with
  | nil => exact Nat.le_refl 0
  | cons c cs =>
      have hdigits := digitsExtent_le cs
      have hall := digitsExtent_le (c :: cs)
      rw [signedDigitsExtent]
      split
      · split <;> simp only [List.length_cons] <;> omega
      · exact hall

theorem exponentExtent_append_blank (h : BeginsBlank rest) (cs : List Char) :
    exponentExtent (cs ++ rest) = exponentExtent cs := by
  cases cs with
  | nil =>
      cases rest with
      | nil => rfl
      | cons c rest =>
          have hsmall := h.ne (d := 'e') (by decide)
          have hcapital := h.ne (d := 'E') (by decide)
          change exponentExtent (c :: rest) = 0
          rw [exponentExtent, decide_eq_false hsmall, decide_eq_false hcapital]
          rfl
  | cons c cs =>
      rw [List.cons_append, exponentExtent, exponentExtent, signedDigitsExtent_append_blank h]

theorem exponentExtent_le (cs : List Char) : exponentExtent cs ≤ cs.length := by
  cases cs with
  | nil => exact Nat.le_refl 0
  | cons c cs =>
      have hdigits := signedDigitsExtent_le cs
      rw [exponentExtent, List.length_cons]
      split <;> omega

theorem numeralExtent_append_blank (h : BeginsBlank rest) (cs : List Char) :
    numeralExtent (cs ++ rest) = numeralExtent cs := by
  have hwhole := digitsExtent_le cs
  have hfraction := fractionExtent_le (cs.drop (digitsExtent cs))
  rw [List.length_drop] at hfraction
  rw [numeralExtent, numeralExtent, digitsExtent_append_blank h,
    List.drop_append_of_le_length hwhole, fractionExtent_append_blank h,
    List.drop_append_of_le_length (by omega), exponentExtent_append_blank h]

theorem numeralExtent_le (cs : List Char) : numeralExtent cs ≤ cs.length := by
  have hwhole := digitsExtent_le cs
  have hfraction := fractionExtent_le (cs.drop (digitsExtent cs))
  have hexponent := exponentExtent_le
    (cs.drop (digitsExtent cs + fractionExtent (cs.drop (digitsExtent cs))))
  rw [List.length_drop] at hfraction hexponent
  rw [numeralExtent]
  omega

theorem startsNumeral_append_blank (h : BeginsBlank rest) (c : Char) (cs : List Char) :
    startsNumeral c (cs ++ rest) = startsNumeral c cs := by
  rw [startsNumeral, startsNumeral, digitsExtent_append_blank h]

theorem head?_append_blank_eq_some_iff (h : BeginsBlank rest) (cs : List Char) {d : Char}
    (hd : isBlank d = false) : (cs ++ rest).head? = some d ↔ cs.head? = some d := by
  cases cs with
  | nil => simpa using h.head?_ne hd
  | cons c cs => rfl

theorem followedBy_append_blank (h : BeginsBlank rest) (cs : List Char) {d : Char}
    (hd : isBlank d = false) : followedBy d (cs ++ rest) = followedBy d cs :=
  if_congr (head?_append_blank_eq_some_iff h cs hd) rfl rfl

theorem followedBy_le (d : Char) (cs : List Char) : followedBy d cs ≤ cs.length := by
  cases cs with
  | nil => exact Nat.le_refl 0
  | cons c cs =>
      rw [followedBy, List.length_cons]
      split <;> omega

end Extents

/-! ## Open brackets -/

/--
How an identifier that is being read goes on behind some text.

It has ended, or as many brackets are open as the text leaves.
-/
def EndsOrGoesOn (depth : Nat) (cs : List Char) : Prop :=
  (identExtent depth cs ≤ cs.length ∧
      ∀ rest, identExtent depth (cs ++ rest) = identExtent depth cs) ∨
    ∃ depth', ∀ rest, identExtent depth (cs ++ rest) = cs.length + identExtent depth' rest

theorem EndsOrGoesOn.cons {depth next : Nat} {c : Char} {cs : List Char}
    (hstep : ∀ rest, identExtent depth (c :: rest) = 1 + identExtent next rest)
    (h : EndsOrGoesOn next cs) : EndsOrGoesOn depth (c :: cs) := by
  rcases h with ⟨hle, hends⟩ | ⟨depth', hgoes⟩
  · refine .inl ⟨?_, fun rest => ?_⟩
    · rw [hstep, List.length_cons]
      omega
    · rw [List.cons_append, hstep, hstep, hends]
  · refine .inr ⟨depth', fun rest => ?_⟩
    rw [List.cons_append, hstep, hgoes, List.length_cons]
    omega

theorem endsOrGoesOn (depth : Nat) (cs : List Char) : EndsOrGoesOn depth cs := by
  fun_induction identExtent depth cs with
  | case1 depth => exact .inr ⟨depth, fun rest => by simp⟩
  | case2 cs ih => exact ih.cons fun rest => by simp [identExtent]
  | case3 c cs hopen hident ih => exact ih.cons fun rest => by simp [identExtent, hopen, hident]
  | case4 c cs hopen hident => exact .inl ⟨by simp [identExtent, hopen, hident],
      fun rest => by simp [identExtent, hopen, hident]⟩
  | case5 depth cs => exact .inl ⟨by simp [identExtent], fun rest => by simp [identExtent]⟩
  | case6 depth cs hbreak ih => exact ih.cons fun rest => by simp [identExtent]
  | case7 depth cs hbreak hopen ih => exact ih.cons fun rest => by simp [identExtent]
  | case8 depth c cs hbreak hopen hclose ih =>
      exact ih.cons fun rest => by simp [identExtent, hbreak, hopen, hclose]

theorem identExtent_zero_blank {rest : List Char} (h : BeginsBlank rest) :
    identExtent 0 rest = 0 := by
  cases rest with
  | nil => rfl
  | cons c rest =>
      have hopen := h.ne (d := '[') (by decide)
      simp [identExtent, hopen, isIdentChar_of_isBlank (h c rfl)]

/-- Inside brackets blanks belong to an identifier. -/
theorem identExtent_succ_blanks (depth : Nat) {blanks : List Char}
    (hblank : ∀ c ∈ blanks, isBlank c = true) (hbreak : '\n' ∉ blanks) :
    identExtent (depth + 1) blanks = blanks.length := by
  induction blanks with
  | nil => rfl
  | cons c blanks ih =>
      obtain ⟨hc, hlater⟩ := List.forall_mem_cons.mp hblank
      have hne : c ≠ '\n' := fun heq => hbreak (heq ▸ List.mem_cons_self)
      have hopen : c ≠ '[' := ne_of_isBlank hc (by decide)
      have hclose : c ≠ ']' := ne_of_isBlank hc (by decide)
      rw [identExtent, if_neg hne, if_neg hopen, if_neg hclose,
        ih hlater fun hmem => hbreak (List.mem_cons_of_mem c hmem), List.length_cons]
      omega

theorem identExtent_newline (depth : Nat) (rest : List Char) :
    identExtent depth ('\n' :: rest) = 0 := by
  cases depth with
  | zero => exact identExtent_zero_blank (beginsBlank_newline rest)
  | succ depth => simp [identExtent]

theorem identExtent_le (depth : Nat) (cs : List Char) : identExtent depth cs ≤ cs.length := by
  rcases endsOrGoesOn depth cs with ⟨hle, -⟩ | ⟨depth', hgoes⟩
  · exact hle
  · have hall := hgoes []
    rw [List.append_nil] at hall
    rw [hall]
    cases depth' <;> exact Nat.le_refl _

/-! ## Lexemes -/

/-- A lexeme that takes nothing behind a text, and that is a line break only at one. -/
def Fits (c : Char) (cs : List Char) (found : TokenKind × Nat) : Prop :=
  found.2 ≤ cs.length ∧ (found.1 = .newline → c = '\n')

theorem fits_of_ne {c : Char} {cs : List Char} {kind : TokenKind} {n : Nat} (hn : n ≤ cs.length)
    (hkind : kind ≠ .newline) : Fits c cs (kind, n) :=
  ⟨hn, fun heq => absurd heq hkind⟩

theorem Fits.ite {c : Char} {cs : List Char} {p : Prop} [Decidable p]
    {found found' : TokenKind × Nat} (h : p → Fits c cs found) (h' : Fits c cs found') :
    Fits c cs (if p then found else found') :=
  iteInduction h fun _ => h'

theorem fits_lexemeOf (c : Char) (cs : List Char) : Fits c cs (lexemeOf c cs) := by
  have hcomment := (List.takeWhile_sublist (· ≠ '\n') (l := cs)).length_le
  have hfollowed := followedBy_le '=' cs
  have hnumeral := numeralExtent_le (c :: cs)
  have hident := identExtent_le 0 (c :: cs)
  have hhead {d : Char} (hd : cs.head? = some d) : 1 ≤ cs.length :=
    List.length_pos_of_mem (List.mem_of_head? hd)
  rw [List.length_cons] at hnumeral hident
  rw [lexemeOf]
  refine .ite (fun hc => ⟨Nat.zero_le _, fun _ => hc⟩) ?_
  refine .ite (fun _ => fits_of_ne hcomment TokenKind.noConfusion) ?_
  refine .ite (fun _ => fits_of_ne (Nat.zero_le _) TokenKind.noConfusion) ?_
  refine .ite (fun _ => fits_of_ne (Nat.zero_le _) TokenKind.noConfusion) ?_
  refine .ite (fun _ => fits_of_ne (Nat.zero_le _) TokenKind.noConfusion) ?_
  refine .ite (fun _ => fits_of_ne hfollowed TokenKind.noConfusion) ?_
  refine .ite (fun _ => fits_of_ne hfollowed TokenKind.noConfusion) ?_
  refine .ite (fun _ => ?_) ?_
  · refine .ite (fun hle => fits_of_ne (hhead hle) TokenKind.noConfusion) ?_
    refine .ite (fun hge => fits_of_ne (hhead hge) TokenKind.noConfusion) ?_
    exact fits_of_ne hfollowed TokenKind.noConfusion
  refine .ite (fun _ => fits_of_ne (by omega) TokenKind.noConfusion) ?_
  refine .ite (fun _ => fits_of_ne (by omega) TokenKind.noConfusion) ?_
  exact fits_of_ne (Nat.zero_le _) TokenKind.noConfusion

theorem lexemeOf_le (c : Char) (cs : List Char) : (lexemeOf c cs).2 ≤ cs.length :=
  (fits_lexemeOf c cs).1

/-- Whether an identifier begins at a character that begins no numeral. -/
def opensIdent (c : Char) : Bool :=
  c = '[' || isIdentChar c

theorem ne_of_opensIdent {c d : Char} (hc : opensIdent c = true) (hd : opensIdent d = false) :
    c ≠ d := by
  rintro rfl
  exact Bool.noConfusion (hc.symm.trans hd)

theorem lexemeOf_of_opensIdent {c : Char} (hc : opensIdent c = true) {cs : List Char}
    (hnumeral : startsNumeral c cs = false) :
    lexemeOf c cs = (.ident, identExtent 0 (c :: cs) - 1) := by
  have hne {d : Char} (hd : opensIdent d = false) : c ≠ d := ne_of_opensIdent hc hd
  rw [lexemeOf, if_neg (hne (by decide)), if_neg (hne (by decide)), if_neg (hne (by decide)),
    if_neg (hne (by decide)), if_neg (hne (by decide)), if_neg (hne (by decide)),
    if_neg (hne (by decide)), if_neg (hne (by decide)), hnumeral]
  exact if_pos hc

theorem lexemeOf_append_of_not_opensIdent {c : Char} (hcomment : c ≠ '\\')
    (hc : opensIdent c = false) (cs : List Char) {rest : List Char} (h : BeginsBlank rest) :
    lexemeOf c (cs ++ rest) = lexemeOf c cs := by
  have hnumeral := numeralExtent_append_blank h (c :: cs)
  rw [List.cons_append] at hnumeral
  rw [opensIdent] at hc
  have hfollowed := followedBy_append_blank h cs (d := '=') (by decide)
  have hle := head?_append_blank_eq_some_iff h cs (d := '<') (by decide)
  have hge := head?_append_blank_eq_some_iff h cs (d := '>') (by decide)
  simp only [lexemeOf, if_neg hcomment, hfollowed, hle, hge, startsNumeral_append_blank h,
    hnumeral, hc, Bool.false_eq_true, if_false]

/-- The ways in which the lexeme at a character depends on what follows its line. -/
theorem lexemeOf_append_cases (c : Char) (cs : List Char) :
    c = '\\' ∨ (∀ rest, BeginsBlank rest → lexemeOf c (cs ++ rest) = lexemeOf c cs) ∨
      ∃ depth, ∀ rest, BeginsBlank rest →
        lexemeOf c (cs ++ rest) = (.ident, cs.length + identExtent (depth + 1) rest) ∧
          identExtent 0 (c :: cs ++ rest) = cs.length + 1 + identExtent (depth + 1) rest := by
  by_cases hcomment : c = '\\'
  · exact .inl hcomment
  refine .inr ?_
  by_cases hnumeral : startsNumeral c cs = true
  · refine .inl fun rest h => ?_
    have hextent := numeralExtent_append_blank h (c :: cs)
    rw [List.cons_append] at hextent
    rw [lexemeOf_of_startsNumeral hnumeral,
      lexemeOf_of_startsNumeral ((startsNumeral_append_blank h c cs).trans hnumeral), hextent]
  cases hopens : opensIdent c with
  | false => exact .inl fun rest h => lexemeOf_append_of_not_opensIdent hcomment hopens cs h
  | true =>
      rw [Bool.not_eq_true] at hnumeral
      have hident (rest : List Char) (h : BeginsBlank rest) :
          lexemeOf c (cs ++ rest) = (.ident, identExtent 0 (c :: cs ++ rest) - 1) :=
        lexemeOf_of_opensIdent hopens ((startsNumeral_append_blank h c cs).trans hnumeral)
      have hall := lexemeOf_of_opensIdent hopens hnumeral
      rcases endsOrGoesOn 0 (c :: cs) with ⟨-, hends⟩ | ⟨depth, hgoes⟩
      · exact .inl fun rest h => by rw [hident rest h, hall, hends]
      cases depth with
      | zero =>
          refine .inl fun rest h => ?_
          have hnone := hgoes []
          rw [List.append_nil] at hnone
          rw [hident rest h, hall, hgoes, hnone, identExtent_zero_blank h]
          rfl
      | succ depth =>
          refine .inr ⟨depth, fun rest h => ?_⟩
          rw [hident rest h, hgoes, List.length_cons]
          exact ⟨congrArg (Prod.mk _) (by omega), rfl⟩

/-- A blank that the scanner does not skip is no token at all. -/
theorem lexemeOf_of_isBlank {c : Char} (hc : isBlank c = true) (hbreak : c ≠ '\n')
    (cs : List Char) : lexemeOf c cs = (.invalid, 0) := by
  have hne {d : Char} (hd : isBlank d = false) : c ≠ d := ne_of_isBlank hc hd
  have hnumeral : startsNumeral c cs = false := by
    simp [startsNumeral, isDigit_of_isBlank hc, hne (d := '.') (by decide)]
  have hopens : opensIdent c = false := by
    simp [opensIdent, isIdentChar_of_isBlank hc, hne (d := '[') (by decide)]
  rw [opensIdent] at hopens
  rw [lexemeOf, if_neg hbreak, if_neg (hne (by decide)), if_neg (hne (by decide)),
    if_neg (hne (by decide)), if_neg (hne (by decide)), if_neg (hne (by decide)),
    if_neg (hne (by decide)), if_neg (hne (by decide)), hnumeral, hopens]
  rfl

end LinearProgram
