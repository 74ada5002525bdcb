import LinearProgram.Proofs.Decimal.Numeral
import LinearProgram.Token.Scan

/-!
# Lexemes

Where a token stands does not matter to what it says.  The lexemes of a text are its
tokens without their places, and they can be computed piece by piece: `lexemes_cons`
takes the lexeme at the next character off, whatever came before.

A text spells some tokens when it is scanned as these tokens wherever it stands before a
separator.  The main statements put spelled texts together to lines.
-/

namespace LinearProgram

namespace Token

/-- A token without its place. -/
def plain (kind : TokenKind) (text : String) : Token :=
  ⟨kind, ⟨0, 0⟩, text⟩

def bare (token : Token) : Token :=
  plain token.kind token.text

@[simp] theorem kind_plain (kind : TokenKind) (text : String) : (plain kind text).kind = kind :=
  rfl

@[simp] theorem text_plain (kind : TokenKind) (text : String) : (plain kind text).text = text :=
  rfl

@[simp] theorem kind_bare (token : Token) : token.bare.kind = token.kind :=
  rfl

@[simp] theorem text_bare (token : Token) : token.bare.text = token.text :=
  rfl

theorem scanFrom_of_dropWhile_eq_nil {cs : List Char} (h : cs.dropWhile isSpacing = [])
    (offset : Nat) :
    (scanFrom offset cs).map bare = [plain .endOfInput ""] := by
  rw [scanFrom]
  split
  · rfl
  · next hcons => exact absurd (h.symm.trans hcons) (List.cons_ne_nil _ _).symm

theorem scanFrom_of_dropWhile_eq_cons {cs rest : List Char} {c : Char}
    (h : cs.dropWhile isSpacing = c :: rest) (offset : Nat) :
    ∃ offset', (scanFrom offset cs).map bare =
      plain (lexemeOf c rest).1 (String.ofList (c :: rest.take (lexemeOf c rest).2)) ::
        (scanFrom offset' (rest.drop (lexemeOf c rest).2)).map bare := by
  rw [scanFrom]
  split
  · next hnil => exact absurd (h.symm.trans hnil) (List.cons_ne_nil _ _)
  · next c' rest' hcons =>
      obtain ⟨rfl, rfl⟩ := List.cons.inj (h.symm.trans hcons)
      exact ⟨_, rfl⟩

theorem map_bare_scanFrom_eq (cs : List Char) (offset offset' : Nat) :
    (scanFrom offset cs).map bare = (scanFrom offset' cs).map bare := by
  induction hn : cs.length using Nat.strongRecOn generalizing cs offset offset' with
  | ind n ih =>
      cases hdrop : cs.dropWhile isSpacing with
      | nil =>
          rw [scanFrom_of_dropWhile_eq_nil hdrop, scanFrom_of_dropWhile_eq_nil hdrop]
      | cons c rest =>
          obtain ⟨next, hscan⟩ := scanFrom_of_dropWhile_eq_cons hdrop offset
          obtain ⟨next', hscan'⟩ := scanFrom_of_dropWhile_eq_cons hdrop offset'
          have hlt := length_drop_lt_of_dropWhile_eq_cons isSpacing (lexemeOf c rest).2 hdrop
          rw [hscan, hscan', ih _ (hn ▸ hlt) _ next next' rfl]

/-- The tokens of a text without their places. -/
def lexemes (cs : List Char) : List Token :=
  (scanFrom 0 cs).map bare

theorem map_bare_scanFrom (offset : Nat) (cs : List Char) :
    (scanFrom offset cs).map bare = lexemes cs :=
  map_bare_scanFrom_eq cs offset 0

theorem lexemes_nil : lexemes [] = [plain .endOfInput ""] :=
  scanFrom_of_dropWhile_eq_nil rfl 0

/-- The lexeme at a character comes first, and scanning goes on behind it. -/
theorem lexemes_cons {c : Char} (hc : isSpacing c = false) (cs : List Char) :
    lexemes (c :: cs) =
      plain (lexemeOf c cs).1 (String.ofList (c :: cs.take (lexemeOf c cs).2)) ::
        lexemes (cs.drop (lexemeOf c cs).2) := by
  have hdrop : (c :: cs).dropWhile isSpacing = c :: cs := by simp [hc]
  obtain ⟨offset, hscan⟩ := scanFrom_of_dropWhile_eq_cons hdrop 0
  rw [map_bare_scanFrom, map_bare_scanFrom] at hscan
  exact hscan

theorem lexemes_spacing {c : Char} (hc : isSpacing c = true) (cs : List Char) :
    lexemes (c :: cs) = lexemes cs := by
  have hsame : (c :: cs).dropWhile isSpacing = cs.dropWhile isSpacing := by simp [hc]
  cases hdrop : cs.dropWhile isSpacing with
  | nil =>
      exact (scanFrom_of_dropWhile_eq_nil (hsame.trans hdrop) 0).trans
        (scanFrom_of_dropWhile_eq_nil hdrop 0).symm
  | cons c' rest =>
      obtain ⟨offset, hscan⟩ := scanFrom_of_dropWhile_eq_cons (hsame.trans hdrop) 0
      obtain ⟨offset', hscan'⟩ := scanFrom_of_dropWhile_eq_cons hdrop 0
      rw [map_bare_scanFrom, map_bare_scanFrom] at hscan hscan'
      exact hscan.trans hscan'.symm

/-- A lexeme of known extent at the front of a text. -/
theorem lexemes_append {c : Char} {cs rest : List Char} {kind : TokenKind}
    (hc : isSpacing c = false) (hlexeme : lexemeOf c (cs ++ rest) = (kind, cs.length)) :
    lexemes (c :: cs ++ rest) = plain kind (String.ofList (c :: cs)) :: lexemes rest := by
  rw [List.cons_append, lexemes_cons hc, hlexeme]
  simp

/-- A lexeme that is known without its place stands where the text begins. -/
theorem scanFrom_of_lexemes {c : Char} {cs rest : List Char} {kind : TokenKind}
    {tokens : List Token} (hc : isSpacing c = false)
    (h : lexemes (c :: cs ++ rest) = plain kind (String.ofList (c :: cs)) :: tokens)
    (offset : Nat) :
    scanFrom offset (c :: cs ++ rest) =
      ⟨kind, ⟨offset, offset + (String.ofList (c :: cs)).utf8ByteSize⟩, String.ofList (c :: cs)⟩ ::
        scanFrom (offset + (String.ofList (c :: cs)).utf8ByteSize) rest := by
  rw [List.cons_append, lexemes_cons hc] at h
  obtain ⟨hfirst, -⟩ := List.cons.inj h
  obtain ⟨hkind, -, htext⟩ := Token.mk.inj hfirst
  obtain ⟨-, htake⟩ := List.cons.inj (String.ofList_injective htext)
  have hdrop : (cs ++ rest).drop (lexemeOf c (cs ++ rest)).2 = rest := by
    have hsplit := List.take_append_drop (lexemeOf c (cs ++ rest)).2 (cs ++ rest)
    rw [htake] at hsplit
    exact List.append_cancel_left hsplit
  have hnone : ((c :: cs) ++ rest).takeWhile isSpacing = [] := by simp [hc]
  rw [scanFrom, hnone]
  split
  · next hnil => simp [hc] at hnil
  · next c' rest' hcons =>
      have hdropWhile : ((c :: cs) ++ rest).dropWhile isSpacing = c :: (cs ++ rest) := by
        simp [hc]
      obtain ⟨rfl, rfl⟩ := List.cons.inj (hdropWhile.symm.trans hcons)
      dsimp only
      rw [hkind, htake, hdrop]
      rfl

end Token

end LinearProgram
