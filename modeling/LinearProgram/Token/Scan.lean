import LinearProgram.Token.Extent

/-!
# Scanning

Scanning cuts LP text into tokens.  It skips spacing, takes the lexeme at the next
character, and goes on behind it, so the lexemes and the spacing between them are the
whole text.  The last token is the end of the input, with no text.
-/

namespace LinearProgram

namespace Token

theorem length_drop_lt_of_dropWhile_eq_cons
    {cs rest : List Char} {c : Char} (p : Char → Bool) (n : Nat)
    (h : cs.dropWhile p = c :: rest) :
    (rest.drop n).length < cs.length := by
  have hle := (List.dropWhile_sublist p (l := cs)).length_le
  rw [h] at hle
  simp only [List.length_cons, List.length_drop] at hle ⊢
  omega

/-- The tokens of a text that starts at the given byte offset. -/
def scanFrom (offset : Nat) (cs : List Char) : List Token :=
  let start := offset + (cs.takeWhile isSpacing).length
  match _h : cs.dropWhile isSpacing with
  | [] => [⟨.endOfInput, ⟨start, start⟩, ""⟩]
  | c :: rest =>
    let (kind, extent) := lexemeOf c rest
    let text := String.ofList (c :: rest.take extent)
    let stop := start + text.utf8ByteSize
    ⟨kind, ⟨start, stop⟩, text⟩ :: scanFrom stop (rest.drop extent)
termination_by cs.length
decreasing_by exact length_drop_lt_of_dropWhile_eq_cons isSpacing _ _h

/-- The tokens of a text, the end of the input included. -/
def scan (source : String) : List Token :=
  scanFrom 0 source.toList

end Token

end LinearProgram
