import LinearProgram.Document.Parser
import LinearProgram.Proofs.Token.Lexeme
import LinearProgram.Signature
import Mathlib.Data.List.TakeWhile

/-!
# Signatures in comments

A written signature has no blank characters and no line breaks, so it can stand in a
comment and be taken out of it again as it is.
-/

namespace LinearProgram

namespace Text

theorem trimLeft_of_not_blank {c : Char} (h : isBlank c = false) (cs : List Char) :
    trimLeft (c :: cs) = c :: cs := by
  rw [trimLeft, List.dropWhile_cons, h, if_neg Bool.false_ne_true]

theorem trimLeft_of_blank {c : Char} (h : isBlank c = true) (cs : List Char) :
    trimLeft (c :: cs) = trimLeft cs := by
  rw [trimLeft, List.dropWhile_cons, h, if_pos rfl]
  rfl

/-- A text that ends with a character that is not blank has nothing to trim there. -/
theorem trimRight_of_last {c : Char} (h : isBlank c = false) (cs : List Char) :
    trimRight (cs ++ [c]) = cs ++ [c] := by
  rw [trimRight, List.reverse_append, List.reverse_singleton, List.singleton_append,
    List.dropWhile_cons, h, if_neg Bool.false_ne_true, List.reverse_cons, List.reverse_reverse]

/-- Trimming stops before characters that are not blank. -/
theorem trimRight_append (cs : List Char) {word : List Char} (hne : word ≠ [])
    (h : ∀ c ∈ word, isBlank c = false) : trimRight (cs ++ word) = cs ++ word := by
  obtain ⟨init, last, rfl⟩ : ∃ init last, word = init ++ [last] :=
    ⟨_, _, (List.dropLast_concat_getLast hne).symm⟩
  rw [← List.append_assoc]
  exact trimRight_of_last (h last (by simp)) _

theorem trim_of_not_blank {cs : List Char} (hne : cs ≠ []) (h : ∀ c ∈ cs, isBlank c = false) :
    trim cs = cs := by
  cases cs with
  | nil => exact absurd rfl hne
  | cons c cs =>
      rw [trim, trimLeft_of_not_blank (h c List.mem_cons_self)]
      exact trimRight_append [] hne h

theorem trimRight_append_blanks (cs : List Char) {blanks : List Char}
    (h : ∀ c ∈ blanks, isBlank c = true) : trimRight (cs ++ blanks) = trimRight cs := by
  have hreverse : ∀ c ∈ blanks.reverse, isBlank c = true :=
    fun c hc => h c (List.mem_reverse.mp hc)
  rw [trimRight, trimRight, List.reverse_append, List.dropWhile_append_of_pos hreverse]

/-- Blanks around a text are trimmed with those that it has. -/
theorem trim_blanks_append {left right : List Char} (cs : List Char)
    (hleft : ∀ c ∈ left, isBlank c = true) (hright : ∀ c ∈ right, isBlank c = true) :
    trim (left ++ cs ++ right) = trim cs := by
  have hdrop : trimLeft (left ++ cs ++ right) = trimLeft (cs ++ right) := by
    rw [trimLeft, List.append_assoc, List.dropWhile_append_of_pos hleft, trimLeft]
  rw [trim, trim, hdrop, trimLeft, List.dropWhile_append]
  split
  · next hnone =>
      have hnil : trimLeft cs = [] := List.isEmpty_iff.mp hnone
      have hall : right.dropWhile isBlank = [] := List.dropWhile_eq_nil_iff.mpr hright
      rw [hall, hnil]
  · exact trimRight_append_blanks (trimLeft cs) hright

end Text

namespace Signature

theorem isBlank_hexDigit : ∀ n < 16, isBlank (hexDigit n) = false := by
  decide

theorem isBlank_of_mem_hexOfByte {byte : UInt8} {c : Char} (h : c ∈ hexOfByte byte) :
    isBlank c = false := by
  have hhigh : byte.toNat / 16 < 16 := by
    have hlt := byte.toNat_lt
    omega
  have hlow : byte.toNat % 16 < 16 := Nat.mod_lt _ (by decide)
  rcases List.mem_cons.mp h with rfl | hlater
  · exact isBlank_hexDigit _ hhigh
  · rw [List.mem_singleton.mp hlater]
    exact isBlank_hexDigit _ hlow

theorem isBlank_of_mem_chars {signature : Signature} {c : Char} (h : c ∈ signature.chars) :
    isBlank c = false := by
  rcases List.mem_cons.mp h with rfl | hlater
  · decide
  · rcases List.mem_cons.mp hlater with rfl | hdigits
    · decide
    · obtain ⟨byte, -, hbyte⟩ := List.mem_flatMap.mp hdigits
      exact isBlank_of_mem_hexOfByte hbyte

theorem newline_not_mem_chars (signature : Signature) : '\n' ∉ signature.chars := by
  intro hmem
  have hblank : isBlank '\n' = true := by decide
  rw [isBlank_of_mem_chars hmem] at hblank
  exact Bool.noConfusion hblank

theorem chars_ne_nil (signature : Signature) : signature.chars ≠ [] :=
  List.cons_ne_nil _ _

end Signature

/-- A signature is found behind its mark. -/
theorem signatureMark?_written (signature : Signature) :
    signatureMark? (Text.trim (" Signature: ".toList ++ signature.chars)) =
      some signature.chars := by
  have hblank : " Signature: ".toList = ' ' :: 'S' :: "ignature: ".toList := rfl
  have htrim : Text.trim (" Signature: ".toList ++ signature.chars) =
      "Signature: ".toList ++ signature.chars := by
    rw [Text.trim, hblank, List.cons_append, Text.trimLeft_of_blank (by decide), List.cons_append,
      Text.trimLeft_of_not_blank (by decide), ← List.cons_append]
    exact Text.trimRight_append _ signature.chars_ne_nil fun c hc =>
      Signature.isBlank_of_mem_chars hc
  have hstrip : Text.stripStart? "Signature:".toList ("Signature: ".toList ++ signature.chars) =
      some (' ' :: signature.chars) := Text.stripStart?_eq_some_iff.mpr rfl
  rw [signatureMark?, htrim, hstrip, Option.map_some, Text.trim,
    Text.trimLeft_of_blank (by decide)]
  exact congrArg some (Text.trim_of_not_blank signature.chars_ne_nil fun c hc =>
    Signature.isBlank_of_mem_chars hc)

/-- The signature in a comment stands behind the mark, whatever number of backslashes it has. -/
theorem signatureOfComment?_of_comment {token : Token} (hkind : token.kind = .comment) :
    signatureOfComment? token =
      (signatureMark? (Text.trim (token.text.toList.dropWhile (· = '\\')))).map String.ofList := by
  rw [signatureOfComment?, if_pos hkind, signatureMark?, Option.map_map]
  rfl

/-- A signature is taken out of the comment in which it is written. -/
theorem signatureOfComment?_written (signature : Signature) :
    signatureOfComment? (Token.plain .comment
      (String.ofList ('\\' :: (" Signature: ".toList ++ signature.chars)))) =
      some signature.text := by
  have hdrop : ('\\' :: (" Signature: ".toList ++ signature.chars)).dropWhile (· = '\\') =
      " Signature: ".toList ++ signature.chars := rfl
  rw [signatureOfComment?_of_comment (Token.kind_plain _ _), Token.text_plain,
    String.toList_ofList, hdrop, signatureMark?_written]
  rfl

end LinearProgram
