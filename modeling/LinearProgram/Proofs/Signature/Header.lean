import LinearProgram.Header
import Mathlib.Data.List.TakeWhile

/-!
# Lines of headers

Cutting the header off goes line by line.  A line that is a comment belongs to the header
and may carry the signature; any other line begins the body.
-/

namespace LinearProgram

namespace Header

theorem firstLine_append {line : List Char} (hline : '\n' ∉ line) (rest : List Char) :
    firstLine (line ++ '\n' :: rest) = line := by
  have hall : ∀ c ∈ line, decide (c ≠ '\n') = true := fun c hc =>
    decide_eq_true fun heq => hline (heq ▸ hc)
  rw [firstLine, List.takeWhile_append_of_pos hall]
  exact List.append_nil line

theorem afterLine_append {line : List Char} (hline : '\n' ∉ line) (rest : List Char) :
    afterLine (line ++ '\n' :: rest) = rest := by
  have hall : ∀ c ∈ line, decide (c ≠ '\n') = true := fun c hc =>
    decide_eq_true fun heq => hline (heq ▸ hc)
  rw [afterLine, List.dropWhile_append_of_pos hall]
  rfl

/-- A text is its first line, the line break behind it if it has one, and the lines after. -/
theorem exists_eq_firstLine_append (cs : List Char) :
    '\n' ∉ firstLine cs ∧ (cs = firstLine cs ∧ afterLine cs = [] ∨
      cs = firstLine cs ++ '\n' :: afterLine cs) := by
  constructor
  · intro hmem
    exact absurd (List.mem_takeWhile_imp hmem) (by decide)
  have hsplit : cs = firstLine cs ++ cs.dropWhile (· ≠ '\n') :=
    (List.takeWhile_append_dropWhile).symm
  cases hdrop : cs.dropWhile (· ≠ '\n') with
  | nil =>
      rw [hdrop, List.append_nil] at hsplit
      exact .inl ⟨hsplit, by rw [afterLine, hdrop]; rfl⟩
  | cons c rest =>
      have hc : c = '\n' := by
        have hfalse := List.head?_dropWhile_not (fun c => decide (c ≠ '\n')) cs
        rw [hdrop] at hfalse
        simpa using hfalse
      refine .inr ?_
      rw [afterLine, hdrop, List.drop_one, List.tail_cons, ← hc, ← hdrop]
      exact hsplit

/-- A comment line goes to the header. -/
theorem splitChars_of_comment {cs comment : List Char}
    (h : commentOf? (firstLine cs) = some comment) :
    splitChars cs = ((signatureMark? (Text.trim comment)).or (splitChars (afterLine cs)).1,
      (splitChars (afterLine cs)).2) := by
  rw [splitChars]
  split
  · next comment' hcomment =>
      obtain rfl := Option.some.inj (h.symm.trans hcomment)
      rfl
  · next hnone => exact absurd (h.symm.trans hnone) (Option.some_ne_none _)

/-- Any other line begins the body. -/
theorem splitChars_of_not_comment {cs : List Char} (h : commentOf? (firstLine cs) = none) :
    splitChars cs = (none, cs) := by
  rw [splitChars]
  split
  · next comment hcomment => exact absurd (h.symm.trans hcomment) (Option.some_ne_none _).symm
  · rfl

theorem splitChars_comment_line {comment : List Char} (hline : '\n' ∉ comment)
    (rest : List Char) :
    splitChars ('\\' :: comment ++ '\n' :: rest) =
      ((signatureMark? (Text.trim comment)).or (splitChars rest).1, (splitChars rest).2) := by
  have hall : '\n' ∉ '\\' :: comment := by
    rw [List.mem_cons, not_or]
    exact ⟨by decide, hline⟩
  have hcomment : commentOf? (firstLine ('\\' :: comment ++ '\n' :: rest)) = some comment := by
    rw [firstLine_append hall]
    rfl
  rw [splitChars_of_comment hcomment, afterLine_append hall]

end Header

end LinearProgram
