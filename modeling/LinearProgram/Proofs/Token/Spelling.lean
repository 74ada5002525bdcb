import LinearProgram.Constraint
import LinearProgram.Proofs.Decimal.Written
import LinearProgram.Proofs.Token.Lexeme
import Mathlib.Data.List.TakeWhile

/-!
# Spelled tokens

A text spells some tokens when it is scanned as these tokens wherever it stands before a
separator, and it spells lines when it does so whatever follows.  Words, numbers and
signs spell single tokens; spaces put spelled texts side by side, and a line break
closes them.
-/

namespace LinearProgram

namespace Token

def newline : Token := plain .newline "\n"

def plus : Token := plain .plus "+"

def minus : Token := plain .minus "-"

def colon : Token := plain .colon ":"

def ident (cs : List Char) : Token := plain .ident (String.ofList cs)

def number (cs : List Char) : Token := plain .number (String.ofList cs)

/-- The token of a relation sign. -/
def ofRelation (relation : Relation) : Token :=
  plain
    (match relation with
      | .le => .le
      | .ge => .ge
      | .eq => .eq)
    relation.text

/-- The tokens of a number in an LP file. -/
def ofNumber : Binary64 → List Token
  | .nan => [ident ['N', 'a', 'N']]
  | .infinity negative => (if negative then [minus] else []) ++ [ident ['i', 'n', 'f']]
  | .finite negative m =>
    (if negative && m.quanta != 0 then [minus] else []) ++ [number (lpNumber (.finite false m))]

end Token

open Token

/-- A text that is scanned as the given tokens when a separator follows. -/
def Spells (cs : List Char) (tokens : List Token) : Prop :=
  ∀ rest, Separates rest → lexemes (cs ++ rest) = tokens ++ lexemes rest

/-- A text that is scanned as the given tokens whatever follows. -/
def SpellsLines (cs : List Char) (tokens : List Token) : Prop :=
  ∀ rest, lexemes (cs ++ rest) = tokens ++ lexemes rest

theorem SpellsLines.spells {cs : List Char} {tokens : List Token} (h : SpellsLines cs tokens) :
    Spells cs tokens :=
  fun rest _ => h rest

theorem spellsLines_nil : SpellsLines [] [] :=
  fun _ => rfl

theorem SpellsLines.append {cs cs' : List Char} {tokens tokens' : List Token}
    (h : SpellsLines cs tokens) (h' : SpellsLines cs' tokens') :
    SpellsLines (cs ++ cs') (tokens ++ tokens') := by
  intro rest
  rw [List.append_assoc, h, h', List.append_assoc]

theorem SpellsLines.append_spells {cs cs' : List Char} {tokens tokens' : List Token}
    (h : SpellsLines cs tokens) (h' : Spells cs' tokens') :
    Spells (cs ++ cs') (tokens ++ tokens') := by
  intro rest hrest
  rw [List.append_assoc, h, h' rest hrest, List.append_assoc]

/-- Spelled texts side by side, when the first is followed by a separator. -/
theorem Spells.append {cs cs' : List Char} {tokens tokens' : List Token}
    (h : Spells cs tokens) (h' : Spells cs' tokens')
    (hseparates : ∀ rest, Separates rest → Separates (cs' ++ rest)) :
    Spells (cs ++ cs') (tokens ++ tokens') := by
  intro rest hrest
  rw [List.append_assoc, h _ (hseparates rest hrest), h' rest hrest, List.append_assoc]

theorem spellsLines_spacing {c : Char} (hc : isSpacing c = true) : SpellsLines [c] [] :=
  fun rest => lexemes_spacing hc rest

theorem spellsLines_spaces (n : Nat) : SpellsLines (List.replicate n ' ') [] := by
  induction n with
  | zero => exact spellsLines_nil
  | succ n ih =>
      rw [List.replicate_succ]
      exact (spellsLines_spacing (by decide)).append ih

/-- A character that is a token on its own. -/
theorem spellsLines_single {c : Char} {kind : TokenKind} (hc : isSpacing c = false)
    (h : ∀ rest, lexemeOf c rest = (kind, 0)) :
    SpellsLines [c] [plain kind (String.ofList [c])] := by
  intro rest
  exact lexemes_append hc (h rest)

theorem spellsLines_newline : SpellsLines ['\n'] [newline] :=
  spellsLines_single (by decide) fun _ => rfl

theorem spellsLines_plus : SpellsLines ['+'] [plus] :=
  spellsLines_single (by decide) fun _ => rfl

theorem spellsLines_minus : SpellsLines ['-'] [minus] :=
  spellsLines_single (by decide) fun _ => rfl

theorem spellsLines_colon : SpellsLines [':'] [colon] :=
  spellsLines_single (by decide) fun _ => rfl

/-- A text behind another one and a space. -/
theorem Spells.append_space {cs cs' : List Char} {tokens tokens' : List Token}
    (h : Spells cs tokens) (h' : Spells cs' tokens') :
    Spells (cs ++ ' ' :: cs') (tokens ++ tokens') :=
  h.append ((spellsLines_spacing (by decide)).append_spells h') fun _ _ => separates_space _

theorem Spells.line {cs : List Char} {tokens : List Token} (h : Spells cs tokens) :
    SpellsLines (cs ++ ['\n']) (tokens ++ [newline]) := by
  intro rest
  rw [List.append_assoc, List.singleton_append, h _ (separates_newline rest), List.append_assoc]
  exact congrArg (tokens ++ ·) (spellsLines_newline rest)

theorem Spells.labelled {cs : List Char} {tokens : List Token} (h : Spells cs tokens) :
    SpellsLines (cs ++ [':']) (tokens ++ [colon]) := by
  intro rest
  rw [List.append_assoc, List.singleton_append, h _ (separates_colon rest), List.append_assoc]
  exact congrArg (tokens ++ ·) (spellsLines_colon rest)

theorem spells_relation (relation : Relation) :
    Spells relation.text.toList [ofRelation relation] := by
  intro rest hrest
  -- Behind a relation sign no other sign follows that could belong to it.
  have hhead : ∀ c, c = '=' ∨ c = '<' ∨ c = '>' → rest.head? ≠ some c := by
    intro c hc
    cases rest with
    | nil => simp
    | cons d rest =>
        rcases hrest with rfl | rfl | rfl <;> rcases hc with rfl | rfl | rfl <;> simp
  cases relation with
  | le =>
      change lexemes ('<' :: ['='] ++ rest) = _
      exact lexemes_append (by decide) rfl
  | ge =>
      change lexemes ('>' :: ['='] ++ rest) = _
      exact lexemes_append (by decide) rfl
  | eq =>
      change lexemes ('=' :: [] ++ rest) = _
      refine lexemes_append (by decide) ?_
      simp [lexemeOf, followedBy, hhead]

/-! ## Words -/

/-- A character that begins a name and no other token. -/
def startsWord (c : Char) : Bool :=
  isIdentChar c && !c.isDigit && c != '.'

theorem ne_of_isIdentChar {c d : Char} (hc : isIdentChar c = true) (hd : isIdentChar d = false) :
    c ≠ d := by
  rintro rfl
  rw [hc] at hd
  exact Bool.noConfusion hd

theorem isSpacing_eq_false {c : Char} (hc : isIdentChar c = true) : isSpacing c = false := by
  simp [isSpacing, ne_of_isIdentChar hc (show isIdentChar ' ' = false by decide),
    ne_of_isIdentChar hc (show isIdentChar '\t' = false by decide),
    ne_of_isIdentChar hc (show isIdentChar '\r' = false by decide)]

theorem lexemeOf_of_startsWord {c : Char} (hc : startsWord c = true) (cs : List Char) :
    lexemeOf c cs = (.ident, identExtent 0 (c :: cs) - 1) := by
  simp only [startsWord, Bool.and_eq_true, Bool.not_eq_true', bne_iff_ne] at hc
  obtain ⟨⟨hident, hdigit⟩, hpoint⟩ := hc
  have hne {d : Char} (hd : isIdentChar d = false) : c ≠ d := ne_of_isIdentChar hident hd
  have hnumeral : startsNumeral c cs = false := by simp [startsNumeral, hdigit, hpoint]
  rw [lexemeOf, if_neg (hne (by decide)), if_neg (hne (by decide)), if_neg (hne (by decide)),
    if_neg (hne (by decide)), if_neg (hne (by decide)), if_neg (hne (by decide)),
    if_neg (hne (by decide)), if_neg (hne (by decide)), hnumeral]
  simp [hident]

theorem identExtent_append {cs : List Char} (hcs : ∀ c ∈ cs, isIdentChar c = true)
    (rest : List Char) :
    identExtent 0 (cs ++ rest) = cs.length + identExtent 0 rest := by
  induction cs with
  | nil => simp
  | cons c cs ih =>
      have hc := hcs c (by simp)
      have hbracket : c ≠ '[' := ne_of_isIdentChar hc (by decide)
      have hrest := ih fun d hd => hcs d (List.mem_cons_of_mem c hd)
      simp only [List.cons_append, identExtent, hbracket, if_false, hc, if_true, hrest,
        List.length_cons]
      omega

theorem Separates.identExtent_eq_zero {rest : List Char} (h : Separates rest) :
    identExtent 0 rest = 0 := by
  cases rest with
  | nil => rfl
  | cons c rest =>
      have hc : c ≠ '[' ∧ isIdentChar c = false := by
        rcases h with rfl | rfl | rfl <;> decide
      simp [identExtent, hc.1, hc.2]

/-- A name that is recognised as a whole is a single token. -/
theorem spells_ident {c : Char} {cs : List Char} (hc : startsWord c = true)
    (hextent : ∀ rest, Separates rest → identExtent 0 (c :: cs ++ rest) = cs.length + 1) :
    Spells (c :: cs) [ident (c :: cs)] := by
  intro rest hrest
  have hident : isIdentChar c = true := by
    simp only [startsWord, Bool.and_eq_true] at hc
    exact hc.1.1
  refine lexemes_append (isSpacing_eq_false hident) ?_
  have hlength := hextent rest hrest
  rw [List.cons_append] at hlength
  rw [lexemeOf_of_startsWord hc, hlength]
  simp

theorem spells_word {c : Char} {cs : List Char} (hc : startsWord c = true)
    (hcs : (c :: cs).all isIdentChar = true) : Spells (c :: cs) [ident (c :: cs)] := by
  apply spells_ident hc
  intro rest hrest
  rw [identExtent_append (List.all_eq_true.mp hcs), hrest.identExtent_eq_zero]
  simp

/-! ## Numbers -/

theorem ne_of_startsNumeral {c d : Char} {cs : List Char} (h : startsNumeral c cs = true)
    (hdigit : d.isDigit = false) (hpoint : d ≠ '.') : c ≠ d := by
  rintro rfl
  simp [startsNumeral, hdigit, hpoint] at h

theorem lexemeOf_of_startsNumeral {c : Char} {cs : List Char} (h : startsNumeral c cs = true) :
    lexemeOf c cs = (.number, numeralExtent (c :: cs) - 1) := by
  have hne {d : Char} (hdigit : d.isDigit = false) (hpoint : d ≠ '.') : c ≠ d :=
    ne_of_startsNumeral h hdigit hpoint
  rw [lexemeOf, if_neg (hne (by decide) (by decide)), if_neg (hne (by decide) (by decide)),
    if_neg (hne (by decide) (by decide)), if_neg (hne (by decide) (by decide)),
    if_neg (hne (by decide) (by decide)), if_neg (hne (by decide) (by decide)),
    if_neg (hne (by decide) (by decide)), if_neg (hne (by decide) (by decide)), if_pos h]

theorem isSpacing_of_startsNumeral {c : Char} {cs : List Char} (h : startsNumeral c cs = true) :
    isSpacing c = false := by
  have hne {d : Char} (hdigit : d.isDigit = false) (hpoint : d ≠ '.') : c ≠ d :=
    ne_of_startsNumeral h hdigit hpoint
  simp [isSpacing, hne (d := ' ') (by decide) (by decide),
    hne (d := '\t') (by decide) (by decide), hne (d := '\r') (by decide) (by decide)]

theorem Numeral.spells (n : Numeral) : Spells n.chars [number n.chars] := by
  intro rest hrest
  obtain ⟨c, cs, hchars, hstarts⟩ := n.exists_chars_eq_cons
  have hstart := hstarts rest
  have hextent := n.numeralExtent_append hrest
  rw [hchars] at hextent ⊢
  refine lexemes_append (isSpacing_of_startsNumeral hstart) ?_
  rw [List.cons_append] at hextent
  rw [lexemeOf_of_startsNumeral hstart, hextent]
  simp

/-- A written number is scanned as a numeral or as the word for infinity, behind its sign. -/
theorem spells_lpNumber (x : Binary64) : Spells (lpNumber x) (ofNumber x) := by
  have hinf : Spells ['i', 'n', 'f'] [ident ['i', 'n', 'f']] := spells_word (by decide) (by decide)
  cases x with
  | nan => exact spells_word (c := 'N') (by decide) (by decide)
  | infinity negative =>
      cases negative with
      | false => exact hinf
      | true => exact spellsLines_minus.append_spells hinf
  | finite negative m =>
      have hpositive : Spells (lpNumber (.finite false m))
          [number (lpNumber (.finite false m))] := by
        obtain ⟨n, hchars, -⟩ := exists_numeral_lpNumber m
        rw [← hchars]
        exact n.spells
      rw [lpNumber_finite]
      simp only [ofNumber]
      by_cases hsign : (negative && m.quanta != 0) = true
      · rw [if_pos hsign, if_pos hsign]
        exact spellsLines_minus.append_spells hpositive
      · rw [if_neg hsign, if_neg hsign]
        exact hpositive

/-! ## Comments -/

theorem lexemeOf_comment_newline {cs : List Char} (h : '\n' ∉ cs) (rest : List Char) :
    lexemeOf '\\' (cs ++ '\n' :: rest) = (.comment, cs.length) := by
  have htake : (cs ++ '\n' :: rest).takeWhile (· ≠ '\n') = cs := by
    rw [List.takeWhile_append_of_pos]
    · simp
    · intro c hc
      exact decide_eq_true fun heq => h (heq ▸ hc)
  rw [lexemeOf, if_neg (by decide), if_pos rfl, htake]

theorem lexemeOf_comment {cs : List Char} (h : '\n' ∉ cs) :
    lexemeOf '\\' cs = (.comment, cs.length) := by
  have htake : cs.takeWhile (· ≠ '\n') = cs := by
    rw [List.takeWhile_eq_self_iff]
    exact fun c hc => decide_eq_true fun heq => h (heq ▸ hc)
  rw [lexemeOf, if_neg (by decide), if_pos rfl, htake]

/-- A comment is one token and ends where its line ends. -/
theorem spells_comment {cs : List Char} (h : '\n' ∉ cs) :
    SpellsLines ('\\' :: (cs ++ ['\n']))
      [plain .comment (String.ofList ('\\' :: cs)), newline] := by
  intro rest
  have hcomment := lexemes_append (c := '\\') (by decide) (lexemeOf_comment_newline h rest)
  rw [List.cons_append, List.append_assoc, List.singleton_append, ← List.cons_append, hcomment]
  exact congrArg (plain .comment (String.ofList ('\\' :: cs)) :: ·) (spellsLines_newline rest)

end LinearProgram
