import LinearProgram.Layout
import LinearProgram.Proofs.Token.Spelling
import Mathlib.Data.List.Forall2

/-!
# Broken lines

Where a line of pieces breaks depends on the options.  What does not depend on them is
that the tokens of the pieces come in order, and that a line break can stand before a
piece but nowhere else.  This is all that a reader of the line needs to know.
-/

namespace LinearProgram

open Token

/-- The tokens of some pieces, line breaks standing before any of the pieces. -/
inductive Broken : List (List Token) → List Token → Prop where
  | nil : Broken [] []
  | stay {piece : List Token} {pieces : List (List Token)} {tokens : List Token} :
      Broken pieces tokens → Broken (piece :: pieces) (piece ++ tokens)
  | wrap {piece : List Token} {pieces : List (List Token)} {tokens : List Token} :
      Broken pieces tokens → Broken (piece :: pieces) (newline :: (piece ++ tokens))

namespace Broken

theorem exists_of_append {pieces pieces' : List (List Token)} {tokens : List Token}
    (h : Broken (pieces ++ pieces') tokens) :
    ∃ front back, tokens = front ++ back ∧ Broken pieces front ∧ Broken pieces' back := by
  induction pieces generalizing tokens with
  | nil => exact ⟨[], tokens, rfl, nil, h⟩
  | cons piece pieces ih =>
      cases h with
      | stay hlater =>
          obtain ⟨front, back, rfl, hfront, hback⟩ := ih hlater
          exact ⟨piece ++ front, back, by rw [List.append_assoc], hfront.stay, hback⟩
      | wrap hlater =>
          obtain ⟨front, back, rfl, hfront, hback⟩ := ih hlater
          exact ⟨newline :: (piece ++ front), back, by simp, hfront.wrap, hback⟩

end Broken

namespace WriteOptions

theorem separates_fill_append (options : WriteOptions) (used : Nat) (pieces : List (List Char))
    {rest : List Char} (hrest : Separates rest) :
    Separates (options.fill used pieces ++ rest) := by
  cases pieces with
  | nil => exact hrest
  | cons piece pieces =>
      rw [fill]
      split
      · exact separates_newline _
      · exact separates_space _

/-- Wherever a line breaks, it spells its pieces. -/
theorem exists_broken_fill (options : WriteOptions) {pieces : List (List Char)}
    {tokens : List (List Token)} (h : List.Forall₂ Spells pieces tokens) (used : Nat) :
    ∃ broken, Broken tokens broken ∧ Spells (options.fill used pieces) broken := by
  induction h generalizing used with
  | nil => exact ⟨[], .nil, spellsLines_nil.spells⟩
  | @cons piece piecesTokens pieces tokens hpiece _ ih =>
      rw [fill]
      split
      · let next := options.continuationIndent + byteLength piece
        obtain ⟨broken, hbroken, hspells⟩ := ih next
        have hindent := spellsLines_newline.append (spellsLines_spaces options.continuationIndent)
        have hlater := hpiece.append hspells fun _ => options.separates_fill_append next pieces
        refine ⟨_, hbroken.wrap, ?_⟩
        simpa using hindent.append_spells hlater
      · let next := used + 1 + byteLength piece
        obtain ⟨broken, hbroken, hspells⟩ := ih next
        have hlater := hpiece.append hspells fun _ => options.separates_fill_append next pieces
        have hspace : SpellsLines [' '] [] := spellsLines_spacing (by decide)
        exact ⟨_, hbroken.stay, hspace.append_spells hlater⟩

/-- A line with its beginning and its pieces. -/
theorem exists_broken_linesAfter (options : WriteOptions) {start : List Char}
    {startTokens : List Token} {pieces : List (List Char)} {tokens : List (List Token)}
    (hstart : Spells start startTokens) (h : List.Forall₂ Spells pieces tokens) :
    ∃ broken, Broken tokens broken ∧
      SpellsLines (options.linesAfter start pieces) (startTokens ++ broken ++ [newline]) := by
  obtain ⟨broken, hbroken, hspells⟩ := options.exists_broken_fill h (byteLength start)
  refine ⟨broken, hbroken, ?_⟩
  have hline := hstart.append hspells fun _ =>
    options.separates_fill_append (byteLength start) pieces
  exact hline.line

/-- A line that begins with spaces and its first piece. -/
theorem exists_broken_linesFrom (options : WriteOptions) (indent : Nat)
    {pieces : List (List Char)} {tokens : List (List Token)}
    (h : List.Forall₂ Spells pieces tokens) :
    ∃ broken, Broken tokens broken ∧
      SpellsLines (options.linesFrom (List.replicate indent ' ') pieces) (broken ++ [newline]) := by
  have hspaces := spellsLines_spaces indent
  cases h with
  | nil => exact ⟨[], .nil, hspaces.append spellsLines_newline⟩
  | cons hpiece hpieces =>
      obtain ⟨broken, hbroken, hspells⟩ :=
        options.exists_broken_linesAfter (hspaces.append_spells hpiece) hpieces
      exact ⟨_, hbroken.stay, hspells⟩

end WriteOptions

end LinearProgram
