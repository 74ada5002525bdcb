import LinearProgram.Layout
import LinearProgram.Text.Pieces
import Mathlib.Tactic.MkIffOfInductiveProp

/-!
# First fit

A line takes pieces as long as they fit, and the first piece that does not fit opens the
next line.  Here this is said of the finished lines: which pieces each of them holds, how
long it can be, and why it ends where it ends.  These conditions leave no choice, so they
describe the written text exactly.
-/

namespace LinearProgram

theorem Text.joinWith_space_cons (piece : List Char) (pieces : List (List Char)) :
    joinWith [' '] (piece :: pieces) = piece ++ pieces.flatMap (' ' :: ·) := by
  induction pieces generalizing piece with
  | nil => simp [joinWith]
  | cons next pieces ih => simp [joinWith, ih]

namespace WriteOptions

/-- A line whose pieces all stand behind a space. -/
def labelledLine (start : List Char) (line : List (List Char)) : List Char :=
  start ++ line.flatMap (' ' :: ·)

/-- A line whose first piece stands right behind the given text. -/
def freshLine (start : List Char) (line : List (List Char)) : List Char :=
  start ++ Text.joinWith [' '] line

/-- A line behind a break. -/
def continuedLine (options : WriteOptions) (line : List (List Char)) : List Char :=
  freshLine (List.replicate options.continuationIndent ' ') line

/--
A text that holds some pieces, those of the first line and those of the later lines, each
piece on the first line with room for it.

The first line takes a number of pieces whatever their length: one if it is fresh, none
behind a label.  Every later line takes one.
-/
@[mk_iff]
structure FirstFit (options : WriteOptions) (opening : List (List Char) → List Char)
    (forced : Nat) (pieces : List (List Char)) (text : List Char)
    (here : List (List Char)) (later : List (List (List Char))) : Prop where
  pieces_eq : here ++ later.flatten = pieces
  text_eq : text = (opening here :: later.map options.continuedLine).flatMap (· ++ ['\n'])
  forced_le : min forced pieces.length ≤ here.length
  /-- A line breaks only for a piece. -/
  nil_notMem : [] ∉ later
  opening_fits : options.maxLineLength < byteLength (opening here) → here.length ≤ forced
  later_fits : ∀ line ∈ later,
    options.maxLineLength < byteLength (options.continuedLine line) → line.length ≤ 1
  /-- The first piece of a later line would have crossed the last column of the line before. -/
  crosses : ∀ lines ∈ (opening here :: later.map options.continuedLine).zip later,
    ∀ piece ∈ lines.2.head?, options.maxLineLength < byteLength lines.1 + 1 + byteLength piece

variable {options : WriteOptions} {start piece text : List Char}
  {pieces here line : List (List Char)} {later : List (List (List Char))}

/-! ## Lines -/

@[simp] theorem labelledLine_nil (start : List Char) : labelledLine start [] = start :=
  List.append_nil start

theorem labelledLine_cons (start piece : List Char) (line : List (List Char)) :
    labelledLine start (piece :: line) = labelledLine (start ++ ' ' :: piece) line := by
  simp [labelledLine]

/-- Behind its first piece, a fresh line goes on as behind a label. -/
theorem freshLine_cons (start piece : List Char) (line : List (List Char)) :
    freshLine start (piece :: line) = labelledLine (start ++ piece) line := by
  simp [freshLine, labelledLine, Text.joinWith_space_cons]

theorem continuedLine_cons (options : WriteOptions) (piece : List Char)
    (line : List (List Char)) :
    options.continuedLine (piece :: line) =
      labelledLine (List.replicate options.continuationIndent ' ' ++ piece) line :=
  freshLine_cons _ piece line

theorem byteLength_le_labelledLine (start : List Char) (line : List (List Char)) :
    byteLength start ≤ byteLength (labelledLine start line) := by
  rw [labelledLine, byteLength_append]
  exact Nat.le_add_right _ _

@[simp] theorem byteLength_spaces (count : Nat) :
    byteLength (List.replicate count ' ') = count := by
  induction count with
  | zero => rfl
  | succ count ih => rw [List.replicate_succ, byteLength_cons_space, ih, Nat.add_comm]

/-! ## One piece -/

theorem linesAfter_cons_of_lt
    (hlt : options.maxLineLength < byteLength start + 1 + byteLength piece) :
    options.linesAfter start (piece :: pieces) = start ++ '\n' ::
      options.linesAfter (List.replicate options.continuationIndent ' ' ++ piece) pieces := by
  simp [linesAfter, fill, hlt]

theorem linesAfter_cons_of_le
    (hle : byteLength start + 1 + byteLength piece ≤ options.maxLineLength) :
    options.linesAfter start (piece :: pieces) =
      options.linesAfter (start ++ ' ' :: piece) pieces := by
  simp [linesAfter, fill, Nat.not_lt.mpr hle, ← Nat.add_assoc]

/-- On the line of a label, a piece that fits does not count. -/
theorem forall_length_cons_iff
    (hle : byteLength start + 1 + byteLength piece ≤ options.maxLineLength) :
    (options.maxLineLength < byteLength (labelledLine start (piece :: line)) →
        (piece :: line).length ≤ 0) ↔
      (options.maxLineLength < byteLength (labelledLine (start ++ ' ' :: piece) line) →
        line.length ≤ 0) := by
  rw [labelledLine_cons]
  constructor
  · exact fun h hlong => absurd (h hlong) (Nat.not_succ_le_zero _)
  · intro h hlong
    have hline : line = [] := List.length_eq_zero_iff.mp (Nat.le_zero.mp (h hlong))
    subst hline
    rw [labelledLine_nil, byteLength_append, byteLength_cons_space] at hlong
    omega

namespace FirstFit

/-- A piece that fits stays on the line of the label. -/
theorem stay_iff (hle : byteLength start + 1 + byteLength piece ≤ options.maxLineLength) :
    options.FirstFit (labelledLine start) 0 (piece :: pieces) text (piece :: here) later ↔
      options.FirstFit (labelledLine (start ++ ' ' :: piece)) 0 pieces text here later := by
  simp only [firstFit_iff, forall_length_cons_iff hle]
  simp [labelledLine_cons]

/-- A piece that crosses the last column opens a line, which it labels. -/
theorem break_iff (hlt : options.maxLineLength < byteLength start + 1 + byteLength piece) :
    options.FirstFit (labelledLine start) 0 (piece :: pieces) (start ++ '\n' :: text) []
        ((piece :: line) :: later) ↔
      options.FirstFit
        (labelledLine (List.replicate options.continuationIndent ' ' ++ piece)) 0 pieces text
        line later := by
  simp [firstFit_iff, continuedLine_cons, hlt, and_assoc]

/-- A fresh line takes its first piece in any case. -/
theorem fresh_iff :
    options.FirstFit (freshLine start) 1 (piece :: pieces) text (piece :: here) later ↔
      options.FirstFit (labelledLine (start ++ piece)) 0 pieces text here later := by
  simp [firstFit_iff, freshLine_cons]

theorem nil_iff (opening : List (List Char) → List Char) (forced : Nat) :
    options.FirstFit opening forced [] text here later ↔
      text = opening [] ++ ['\n'] ∧ here = [] ∧ later = [] := by
  constructor
  · intro h
    obtain ⟨rfl, hlater⟩ := List.append_eq_nil_iff.mp h.pieces_eq
    have hnil : later = [] := List.eq_nil_iff_forall_not_mem.mpr fun line hline =>
      h.nil_notMem (List.flatten_eq_nil_iff.mp hlater line hline ▸ hline)
    subst hnil
    exact ⟨by simpa using h.text_eq, rfl, rfl⟩
  · rintro ⟨rfl, rfl, rfl⟩
    simp [firstFit_iff]

/-! ## No choice -/

theorem exists_later_cons
    {opening : List (List Char) → List Char} {forced : Nat}
    (h : options.FirstFit opening forced (piece :: pieces) text [] later) :
    ∃ line lines rest, later = (piece :: line) :: lines ∧ text = opening [] ++ '\n' :: rest := by
  cases later with
  | nil => exact absurd h.pieces_eq (List.cons_ne_nil _ _).symm
  | cons first lines =>
      cases first with
      | nil => exact absurd List.mem_cons_self h.nil_notMem
      | cons other line =>
          have heq := h.pieces_eq
          simp only [List.nil_append, List.flatten_cons, List.cons_append, List.cons.injEq] at heq
          have htext := h.text_eq
          rw [List.flatMap_cons, List.append_assoc, List.singleton_append] at htext
          exact ⟨line, lines, _, by rw [heq.1], htext⟩

/-- Behind a label, a piece that fits is on the line of the label. -/
theorem exists_here_cons
    (h : options.FirstFit (labelledLine start) 0 (piece :: pieces) text here later)
    (hle : byteLength start + 1 + byteLength piece ≤ options.maxLineLength) :
    ∃ line, here = piece :: line := by
  cases here with
  | nil =>
      obtain ⟨line, lines, -, rfl, -⟩ := h.exists_later_cons
      have hlt := h.crosses (labelledLine start [], piece :: line) List.mem_cons_self piece rfl
      rw [labelledLine_nil] at hlt
      exact absurd hlt (Nat.not_lt.mpr hle)
  | cons other line => exact ⟨line, by rw [(List.cons.inj h.pieces_eq).1]⟩

/-- Behind a label, a piece that crosses the last column is not on the line of the label. -/
theorem here_eq_nil
    (h : options.FirstFit (labelledLine start) 0 (piece :: pieces) text here later)
    (hlt : options.maxLineLength < byteLength start + 1 + byteLength piece) : here = [] := by
  cases here with
  | nil => rfl
  | cons other line =>
      rw [(List.cons.inj h.pieces_eq).1] at h
      have hle := byteLength_le_labelledLine (start ++ ' ' :: piece) line
      rw [← labelledLine_cons, byteLength_append, byteLength_cons_space] at hle
      exact absurd (h.opening_fits (by omega)) (Nat.not_succ_le_zero _)

end FirstFit

/-- What stands behind a label is laid out by first fit, and by nothing else. -/
theorem eq_linesAfter_iff :
    text = options.linesAfter start pieces ↔
      ∃ here later, options.FirstFit (labelledLine start) 0 pieces text here later := by
  -- A line that goes on is a label for the pieces to come, and so is a line behind a break.
  induction pieces generalizing start text with
  | nil => simp [FirstFit.nil_iff, linesAfter, fill]
  | cons piece pieces ih =>
      by_cases hlt : options.maxLineLength < byteLength start + 1 + byteLength piece
      · rw [linesAfter_cons_of_lt hlt]
        constructor
        · rintro rfl
          obtain ⟨line, later, h⟩ := ih.mp rfl
          exact ⟨[], (piece :: line) :: later, (FirstFit.break_iff hlt).mpr h⟩
        · rintro ⟨here, later, h⟩
          obtain rfl := h.here_eq_nil hlt
          obtain ⟨line, lines, rest, rfl, rfl⟩ := h.exists_later_cons
          rw [labelledLine_nil] at h ⊢
          rw [ih.mpr ⟨line, lines, (FirstFit.break_iff hlt).mp h⟩]
      · have hle := Nat.not_lt.mp hlt
        rw [linesAfter_cons_of_le hle, ih]
        constructor
        · rintro ⟨here, later, h⟩
          exact ⟨piece :: here, later, (FirstFit.stay_iff hle).mpr h⟩
        · rintro ⟨here, later, h⟩
          obtain ⟨line, rfl⟩ := h.exists_here_cons hle
          exact ⟨line, later, (FirstFit.stay_iff hle).mp h⟩

example : (⟨8, 2, true, true⟩ : WriteOptions).linesAfter " c:".toList
    ["x".toList, "+ y".toList, ">= 10".toList] = " c: x\n  + y\n  >= 10\n".toList := by
  decide

/-- A fresh line takes its first piece, and goes on by first fit and by nothing else. -/
theorem eq_linesFrom_iff :
    text = options.linesFrom start pieces ↔
      ∃ here later, options.FirstFit (freshLine start) 1 pieces text here later := by
  cases pieces with
  | nil => simp [FirstFit.nil_iff, linesFrom, freshLine, Text.joinWith]
  | cons piece pieces =>
      rw [linesFrom, eq_linesAfter_iff]
      constructor
      · rintro ⟨here, later, h⟩
        exact ⟨piece :: here, later, FirstFit.fresh_iff.mpr h⟩
      · rintro ⟨here, later, h⟩
        cases here with
        | nil => exact absurd h.forced_le (by simp)
        | cons other line =>
            rw [(List.cons.inj h.pieces_eq).1] at h
            exact ⟨line, later, FirstFit.fresh_iff.mp h⟩

end WriteOptions

end LinearProgram
