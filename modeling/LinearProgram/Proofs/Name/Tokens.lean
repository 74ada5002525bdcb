import LinearProgram.Proofs.Document.Alike
import LinearProgram.Proofs.Document.GuardedSections
import LinearProgram.Proofs.Model.Reachable

/-!
# Names as tokens

What a name may be and what a reader makes of a word are told by different tables: letters
and marks of names against the extents of lexemes, reserved words against section keywords
and the words for infinity and for free variables.  The two agree.  A name without a fault
is scanned as one identifier, and no reader takes this identifier for anything else.  The
main statement is `Name.isOrdinary_of_check`.
-/

namespace LinearProgram

open Token

/-- An identifier that no reader takes for a word with a meaning of its own. -/
structure Token.IsOrdinary (token : Token) : Prop where
  keyword : ∀ previous later, (Cursor.mk previous (token :: later)).keyword? = none
  free : ∀ previous later, Reader.atFree ⟨previous, token :: later⟩ = false
  infinity : Reader.isInfinityWord token = false

/-! ## Reserved words -/

/-- A word is reserved for a section, alone or with a second word, or for a bound. -/
theorem Name.mem_reservedWords_iff {word : String} :
    word ∈ reservedWords ↔
      SectionKeyword.ofWord? word ≠ none ∨
        (∃ next, SectionKeyword.ofWords? word (asciiLower next) ≠ none) ∨
          word = "free" ∨ word = "inf" ∨ word = "infinity" := by
  constructor
  · have hall : ∀ word ∈ reservedWords, SectionKeyword.ofWord? word ≠ none ∨
        (SectionKeyword.ofWords? word (asciiLower "to") ≠ none ∨
          SectionKeyword.ofWords? word (asciiLower "that") ≠ none) ∨
            word = "free" ∨ word = "inf" ∨ word = "infinity" := by decide +kernel
    intro hmem
    rcases hall word hmem with hone | (hto | hthat) | hother
    · exact .inl hone
    · exact .inr (.inl ⟨"to", hto⟩)
    · exact .inr (.inl ⟨"that", hthat⟩)
    · exact .inr (.inr hother)
  · intro h
    by_contra hnot
    rcases h with hone | ⟨next, htwo⟩ | rfl | rfl | rfl
    · exact hone (SectionKeyword.ofWord?_eq_none hnot)
    · exact htwo (SectionKeyword.ofWords?_eq_none hnot _)
    · exact hnot (by decide)
    · exact hnot (by decide)
    · exact hnot (by decide)

namespace Token.IsOrdinary

variable {token : Token}

theorem of_unreserved (h : Unreserved token.text) : token.IsOrdinary := by
  have hword (word : String) (hmem : word ∈ Name.reservedWords) : asciiLower token.text ≠ word :=
    fun heq => h (heq ▸ hmem)
  refine ⟨Cursor.keyword?_of_unreserved h, fun previous later => ?_, ?_⟩
  · rw [Bool.eq_false_iff, Ne, Reader.atFree_eq_true_iff]
    exact fun hfree => hword "free" (by decide) hfree.2
  · simp [Reader.isInfinityWord, hword "inf" (by decide), hword "infinity" (by decide)]

/-- Every reserved word is taken for something by some reader. -/
theorem unreserved (hkind : token.kind = .ident) (h : token.IsOrdinary) :
    Unreserved token.text := by
  intro hmem
  rcases Name.mem_reservedWords_iff.mp hmem with hone | ⟨next, htwo⟩ | hfree | hinf
  · apply hone
    have hnone := h.keyword none []
    rwa [Cursor.keyword?, Cursor.atLineStart, if_pos rfl, Cursor.keywordOf?,
      Option.map_eq_none_iff, Cursor.oneWord?, if_pos hkind] at hnone
  · apply htwo
    have hnone := h.keyword none [plain .ident next]
    have htwoWords : Cursor.twoWords? token (plain .ident next) =
        SectionKeyword.ofWords? (asciiLower token.text) (asciiLower next) :=
      if_pos ⟨hkind, rfl⟩
    rw [Cursor.keyword?, Cursor.atLineStart, if_pos rfl, Cursor.keywordOf?,
      if_neg TokenKind.noConfusion, htwoWords] at hnone
    split at hnone
    · exact absurd hnone (Option.some_ne_none _)
    · assumption
  · have hfalse := h.free none []
    rw [Bool.eq_false_iff, Ne, Reader.atFree_eq_true_iff] at hfalse
    exact hfalse ⟨hkind, hfree⟩
  · have hfalse := h.infinity
    rcases hinf with hword | hword <;> simp [Reader.isInfinityWord, hkind, hword] at hfalse

/-- An identifier is ordinary exactly if its text is not reserved. -/
theorem iff_isReserved_eq_false (hkind : token.kind = .ident) :
    token.IsOrdinary ↔ Name.isReserved token.text = false := by
  have hreserved : Name.isReserved token.text = false ↔ Unreserved token.text := by
    rw [Name.isReserved, List.contains_eq_mem, decide_eq_false_iff_not]
    rfl
  rw [hreserved]
  exact ⟨unreserved hkind, of_unreserved⟩

/-- No number is read where an ordinary identifier stands. -/
theorem value_eq (hkind : token.kind = .ident) (h : token.IsOrdinary) (previous : Option Token)
    (later : List Token) :
    Reader.atBoundValue ⟨previous, token :: later⟩ = false ∧
      Reader.value ⟨previous, token :: later⟩ = .error (.unexpectedToken .number token) := by
  have hsign : (Cursor.mk previous (token :: later)).atSign = false := by
    simp [Cursor.atSign, Cursor.kind, hkind]
  have hskip : (Cursor.mk previous (token :: later)).skipNewlines = ⟨previous, token :: later⟩ :=
    Cursor.skipNewlines_of_ne (by simp [Cursor.kind, hkind])
  have hstop : Reader.signs false ⟨previous, token :: later⟩ =
      (false, ⟨previous, token :: later⟩) :=
    Reader.signsFrom_stop (by simp [hkind]) (by simp [hkind]) (fun _ => rfl) _ _ _
  have hnumber : token.kind ≠ .number := by simp [hkind]
  constructor
  · rw [Reader.atBoundValue]
    dsimp only
    rw [hsign, h.infinity, decide_eq_false hnumber]
    rfl
  · rw [Reader.value, hskip, hstop]
    dsimp only
    rw [if_neg hnumber, h.infinity, if_neg Bool.false_ne_true]
    rfl

end Token.IsOrdinary

namespace Name

/-- A name without a fault is one identifier, wherever its text begins. -/
theorem IsValid.scanFrom_chars_append {name : Name} (h : name.IsValid) {rest : List Char}
    (hrest : Separates rest) (offset : Nat) :
    scanFrom offset (name.chars ++ rest) =
      ⟨.ident, ⟨offset, offset + name.text.utf8ByteSize⟩, name.text⟩ ::
        scanFrom (offset + name.text.utf8ByteSize) rest := by
  have hspells := h.spells rest hrest
  obtain ⟨c, cs, hcons, -⟩ := h.template_starts
  have hspacing : isSpacing c = false :=
    isSpacing_eq_false
      (isIdentChar_of_isTemplateChar (h.template_chars c (hcons ▸ List.mem_cons_self)))
  obtain ⟨behind, hchars⟩ : ∃ behind, name.chars = c :: behind := by
    rw [chars, hcons]
    split
    · exact ⟨_, rfl⟩
    · exact ⟨_, rfl⟩
  rw [hchars] at hspells
  rw [text, hchars]
  exact scanFrom_of_lexemes hspacing hspells offset

/--
The rule for names and the rules for words agree.  An identifier has a meaning of its own
exactly if its text is reserved for names; and the text of a checked name is scanned as one
identifier that has none, wherever it stands before a separator.
-/
theorem isOrdinary_of_check :
    (∀ token : Token, token.kind = .ident →
      (token.IsOrdinary ↔ isReserved token.text = false)) ∧
    ∀ name : Name, name.check = .ok () →
      (∀ offset rest, Separates rest → scanFrom offset (name.chars ++ rest) =
        ⟨.ident, ⟨offset, offset + name.text.utf8ByteSize⟩, name.text⟩ ::
          scanFrom (offset + name.text.utf8ByteSize) rest) ∧
      ∀ span previous later, Token.IsOrdinary ⟨.ident, span, name.text⟩ ∧
        Reader.atBoundValue ⟨previous, ⟨.ident, span, name.text⟩ :: later⟩ = false ∧
        Reader.value ⟨previous, ⟨.ident, span, name.text⟩ :: later⟩ =
          .error (.unexpectedToken .number ⟨.ident, span, name.text⟩) := by
  refine ⟨fun token hkind => IsOrdinary.iff_isReserved_eq_false hkind, fun name hcheck => ?_⟩
  have hvalid := (Name.check_eq_ok_iff name).mp hcheck
  refine ⟨fun offset rest hrest => hvalid.scanFrom_chars_append hrest offset, ?_⟩
  intro span previous later
  have hordinary : Token.IsOrdinary ⟨.ident, span, name.text⟩ :=
    .of_unreserved hvalid.asciiLower_not_mem_reservedWords
  exact ⟨hordinary, hordinary.value_eq rfl previous later⟩

/-- A reserved word with an index key has no meaning of its own. -/
theorem isOrdinary_free_indexed :
    Name.check ⟨"free", ["1"]⟩ = .ok () ∧
      scanFrom 0 "free[1]: x".toList = ⟨.ident, ⟨0, 7⟩, "free[1]"⟩ :: scanFrom 7 ": x".toList ∧
      Token.IsOrdinary ⟨.ident, ⟨0, 7⟩, "free[1]"⟩ ∧
      ¬ Token.IsOrdinary ⟨.ident, ⟨0, 4⟩, "free"⟩ := by
  obtain ⟨hreserved, hnames⟩ := isOrdinary_of_check
  have hcheck : Name.check ⟨"free", ["1"]⟩ = .ok () := rfl
  obtain ⟨hscan, hordinary⟩ := hnames ⟨"free", ["1"]⟩ hcheck
  refine ⟨hcheck, hscan 0 ": x".toList (separates_colon _), (hordinary _ none []).1, ?_⟩
  rw [hreserved _ rfl]
  decide

end Name

end LinearProgram
