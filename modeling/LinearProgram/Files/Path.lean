import LinearProgram.Text.Pieces

/-!
# Paths

A path is written as parts between slashes.  An empty part or a single point stands for
the directory reached so far, so such parts say nothing at the end of a path; only a
point that a path begins with counts as a part of its own.
-/

namespace LinearProgram

/-- The parts of a path as they are written, behind a slash if it starts at the root. -/
structure Path where
  fromRoot : Bool
  parts : List String
deriving DecidableEq

namespace Path

def ofChars : List Char → Path
  | '/' :: cs => ⟨true, (Text.splitOn '/' cs).map String.ofList⟩
  | cs => ⟨false, (Text.splitOn '/' cs).map String.ofList⟩

def ofText (text : String) : Path :=
  ofChars text.toList

/-- The written form of a path. -/
def chars (path : Path) : List Char :=
  let parts := Text.joinWith ['/'] (path.parts.map String.toList)
  if path.fromRoot then '/' :: parts else parts

def text (path : Path) : String :=
  String.ofList path.chars

theorem chars_ofChars (cs : List Char) : (ofChars cs).chars = cs := by
  unfold ofChars
  split <;> simp [chars, Function.comp_def, Text.joinWith_splitOn]

theorem text_ofText (text : String) : (ofText text).text = text := by
  simp [ofText, Path.text, chars_ofChars]

/-- Whether nothing is written at all. -/
def isEmpty (path : Path) : Bool :=
  path.chars.isEmpty

/-- Whether a part stands for the directory reached so far. -/
def isIdle (part : String) : Bool :=
  part == "" || part == "."

/-- A list up to its last element that does not have a property. -/
def withoutTrailing (p : α → Bool) : List α → List α
  | [] => []
  | x :: xs =>
    match withoutTrailing p xs with
    | [] => if p x then [] else [x]
    | y :: ys => x :: y :: ys

theorem length_withoutTrailing_le (p : α → Bool) (xs : List α) :
    (withoutTrailing p xs).length ≤ xs.length := by
  induction xs with
  | nil => simp [withoutTrailing]
  | cons x xs ih =>
      unfold withoutTrailing
      split
      · split <;> simp
      next h => simp [h] at ih ⊢; omega

/-- The path without the parts at its end that say nothing. -/
def trimmed (path : Path) : Path :=
  match path with
  | ⟨false, "." :: parts⟩ => ⟨false, "." :: withoutTrailing isIdle parts⟩
  | ⟨fromRoot, parts⟩ => ⟨fromRoot, withoutTrailing isIdle parts⟩

theorem length_trimmed_le (path : Path) : path.trimmed.parts.length ≤ path.parts.length := by
  unfold trimmed
  split
  next parts => simpa using length_withoutTrailing_le isIdle parts
  next parts _ => exact length_withoutTrailing_le isIdle parts

/-- The path without its last part; a path without parts has no parent. -/
def parent? (path : Path) : Option Path :=
  let path := path.trimmed
  if path.parts.isEmpty then none
  else some (Path.mk path.fromRoot path.parts.dropLast).trimmed

theorem length_parent?_lt {path parent : Path} (h : path.parent? = some parent) :
    parent.parts.length < path.parts.length := by
  simp only [parent?, Option.ite_none_left_eq_some, Option.some.injEq] at h
  obtain ⟨hne, rfl⟩ := h
  have hpath := length_trimmed_le path
  have hparent := length_trimmed_le ⟨path.trimmed.fromRoot, path.trimmed.parts.dropLast⟩
  have hpos : path.trimmed.parts.length ≠ 0 := by simpa using hne
  simp only [List.length_dropLast] at hparent
  omega

end Path

end LinearProgram
