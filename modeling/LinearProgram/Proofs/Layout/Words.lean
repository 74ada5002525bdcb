import LinearProgram.Layout
import LinearProgram.Text.Blank
import Mathlib.Data.List.Forall2

/-!
# Words of broken lines

White space separates the words of a text.  A break and the indentation behind it are
white space, just as the single space that stands where a line goes on, so the words of
some lines do not depend on where the lines break.
-/

namespace LinearProgram

namespace Text

/-- The words of a text, which white space separates. -/
def words (cs : List Char) : List (List Char) :=
  (cs.splitOnP isBlank).filter (· ≠ [])

/-- White space ends a word. -/
theorem words_append_cons {c : Char} (hblank : isBlank c = true) (cs ds : List Char) :
    words (cs ++ c :: ds) = words cs ++ words ds := by
  rw [words, List.splitOnP_append_cons cs ds hblank, List.filter_append]
  rfl

theorem words_append_space (cs ds : List Char) :
    words (cs ++ ' ' :: ds) = words cs ++ words ds :=
  words_append_cons (by decide) cs ds

theorem words_append_newline (cs ds : List Char) :
    words (cs ++ '\n' :: ds) = words cs ++ words ds :=
  words_append_cons (by decide) cs ds

theorem words_spaces_append (count : Nat) (cs : List Char) :
    words (List.replicate count ' ' ++ cs) = words cs := by
  induction count with
  | zero => rfl
  | succ count ih =>
      rw [List.replicate_succ, List.cons_append]
      exact (words_append_space [] _).trans ih

/-- Whether two texts bring the same words to any text around them. -/
def SameWords (cs ds : List Char) : Prop :=
  ∀ before behind, words (before ++ cs ++ behind) = words (before ++ ds ++ behind)

namespace SameWords

variable {cs ds cs' ds' : List Char}

protected theorem refl (cs : List Char) : SameWords cs cs :=
  fun _ _ => rfl

theorem append (h : SameWords cs ds) (h' : SameWords cs' ds') :
    SameWords (cs ++ cs') (ds ++ ds') := by
  intro before behind
  calc words (before ++ (cs ++ cs') ++ behind)
      = words (before ++ cs ++ (cs' ++ behind)) := by simp only [List.append_assoc]
    _ = words (before ++ ds ++ (cs' ++ behind)) := h _ _
    _ = words (before ++ ds ++ cs' ++ behind) := by rw [List.append_assoc (before ++ ds)]
    _ = words (before ++ ds ++ ds' ++ behind) := h' _ _
    _ = words (before ++ (ds ++ ds') ++ behind) := by simp only [List.append_assoc]

protected theorem cons (c : Char) (h : SameWords cs ds) : SameWords (c :: cs) (c :: ds) :=
  (SameWords.refl [c]).append h

theorem flatten {texts texts' : List (List Char)} (h : List.Forall₂ SameWords texts texts') :
    SameWords texts.flatten texts'.flatten := by
  induction h with
  | nil => exact .refl []
  | cons hfirst _ ih => exact hfirst.append ih

theorem words_eq (h : SameWords cs ds) : words cs = words ds := by
  simpa using h [] []

end SameWords

end Text

namespace WriteOptions

open Text

/-- Wherever a line breaks, its pieces keep their words. -/
theorem words_append_fill (options : WriteOptions) (cs : List Char) (used : Nat)
    (pieces : List (List Char)) :
    words (cs ++ options.fill used pieces) = words cs ++ pieces.flatMap words := by
  induction pieces generalizing cs used with
  | nil => simp [fill]
  | cons piece pieces ih =>
      rw [fill, List.flatMap_cons]
      split
      · rw [words_append_newline, List.append_assoc, words_spaces_append, ih]
      · rw [words_append_space, ih]

variable (options options' : WriteOptions)

theorem sameWords_linesAfter (start : List Char) (pieces : List (List Char)) :
    SameWords (options.linesAfter start pieces) (options'.linesAfter start pieces) := by
  have hwords : ∀ (options : WriteOptions) (before behind : List Char),
      words (before ++ options.linesAfter start pieces ++ behind) =
        words (before ++ start) ++ pieces.flatMap words ++ words behind := by
    intro options before behind
    rw [← words_append_fill options (before ++ start) (byteLength start),
      ← words_append_newline, linesAfter]
    simp only [List.append_assoc, List.singleton_append]
  intro before behind
  rw [hwords, hwords]

theorem sameWords_linesFrom (start : List Char) (pieces : List (List Char)) :
    SameWords (options.linesFrom start pieces) (options'.linesFrom start pieces) := by
  cases pieces with
  | nil => exact .refl _
  | cons piece pieces => exact sameWords_linesAfter options options' (start ++ piece) pieces

end WriteOptions

end LinearProgram
