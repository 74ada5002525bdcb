import LinearProgram.Comparison
import LinearProgram.Proofs.Document.Alike

/-!
# Tokens of the lines that count

The tokens of a text are those of its lines, each behind a line break.  A comparison
drops lines without tokens and takes the blanks around the other lines off, which leaves
the tokens alike.  The main statement is `alike_lineTokens`.
-/

namespace LinearProgram

namespace Token

/-- The tokens of lines, each behind a line break. -/
def lineTokens (lines : List (List Char)) : List Token :=
  lines.flatMap fun line => newline :: code line

theorem lineTokens_cons (line : List Char) (lines : List (List Char)) :
    lineTokens (line :: lines) = newline :: (code line ++ lineTokens lines) :=
  List.flatMap_cons

theorem lineTokens_of_joinWith {lines : List (List Char)} (hne : lines ≠ [])
    (hlines : ∀ line ∈ lines, '\n' ∉ line) :
    newline :: code (Text.joinWith ['\n'] lines) = lineTokens lines := by
  induction lines with
  | nil => exact absurd rfl hne
  | cons line lines ih =>
      rw [lineTokens_cons]
      cases lines with
      | nil => simp [Text.joinWith, lineTokens]
      | cons next lines =>
          have hlater := ih (List.cons_ne_nil _ _) fun other hmem =>
            hlines other (List.mem_cons_of_mem line hmem)
          rw [← hlater, Text.joinWith, List.append_assoc, List.singleton_append,
            code_append_newline (hlines line List.mem_cons_self)]
          exact List.cons_ne_nil _ _

/-- The tokens of a text are those of its lines. -/
theorem newline_cons_code (cs : List Char) :
    newline :: code cs = lineTokens (Text.splitOn '\n' cs) := by
  rw [← lineTokens_of_joinWith (Text.splitOn_ne_nil '\n' cs)
    fun _ => Text.not_mem_of_mem_splitOn, Text.joinWith_splitOn]

/-! ## Line breaks -/

/-- Tokens behind a line break, which is left out before another one. -/
def afterBreak (tokens : List Token) : List Token :=
  if tokens.head?.map Token.kind = some .newline then tokens else newline :: tokens

variable {token : Token} {tokens tokens' rest rest' : List Token}

theorem afterBreak_cons_of_eq (h : token.kind = .newline) (tokens : List Token) :
    afterBreak (token :: tokens) = token :: tokens :=
  if_pos (congrArg some h)

theorem afterBreak_cons_of_ne (h : token.kind ≠ .newline) (tokens : List Token) :
    afterBreak (token :: tokens) = newline :: token :: tokens :=
  if_neg fun hsome => h (Option.some.inj hsome)

theorem head?_collapse (tokens : List Token) :
    (collapse tokens).head? = tokens.head?.map worded := by
  cases tokens with
  | nil => rfl
  | cons token tokens =>
      obtain ⟨later, hlater⟩ := exists_collapse_cons token tokens
      rw [hlater]
      rfl

theorem collapse_newline (tokens : List Token) :
    collapse (newline :: tokens) = afterBreak (collapse tokens) := by
  have hhead : (collapse tokens).head?.map Token.kind = tokens.head?.map Token.kind := by
    rw [head?_collapse, Option.map_map]
    exact congrArg (tokens.head?.map ·) (funext kind_worded)
  rw [collapse, afterBreak, hhead, worded_of_eq rfl]
  simp only [kind_plain, newline, true_and]

theorem Alike.afterBreak (h : Alike tokens tokens') :
    Alike (afterBreak tokens) (afterBreak tokens') := by
  cases h with
  | ended hbreaks =>
      cases tokens' with
      | nil => exact .cons rfl (.ended hbreaks)
      | cons token' tokens' =>
          obtain ⟨rfl, hlater⟩ := List.forall_mem_cons.mp hbreaks
          exact .cons rfl (.ended hlater)
  | stray hkind tokens hbreak =>
      rw [afterBreak_cons_of_ne (by simp [hkind])]
      cases tokens' with
      | nil => exact .line (barred_of_invalid hkind tokens) _
      | cons token' tokens' =>
          rw [hbreak token' rfl]
          exact .line (barred_of_invalid hkind tokens) _
  | unclosed hopen hopen' hcolon hcolon' =>
      rw [afterBreak_cons_of_ne (by simp [hopen.1]), afterBreak_cons_of_ne (by simp [hopen'.1])]
      exact .cons rfl (.unclosed hopen hopen' hcolon hcolon')
  | line hbarred tokens' => exact .line hbarred tokens'
  | @cons token hspan tokens tokens' h =>
      by_cases hkind : token.kind = .newline
      · rw [afterBreak_cons_of_eq hkind, afterBreak_cons_of_eq hkind]
        exact .cons hspan h
      · rw [afterBreak_cons_of_ne hkind, afterBreak_cons_of_ne hkind]
        exact .cons rfl (.cons hspan h)

/-- Tokens before which a line ends. -/
def EndsLine (tokens : List Token) : Prop :=
  ∀ next ∈ tokens.head?, next.kind = .newline

theorem EndsLine.head?_collapse (h : EndsLine tokens) :
    ∀ next ∈ (collapse tokens).head?, next = newline := by
  intro next hnext
  rw [Token.head?_collapse] at hnext
  obtain ⟨token, htoken, rfl⟩ := Option.map_eq_some_iff.mp hnext
  exact worded_of_eq (h token htoken)

theorem EndsLine.head?_kind_ne (h : EndsLine tokens) :
    (collapse tokens).head?.map Token.kind ≠ some .colon := by
  intro hcolon
  obtain ⟨next, hnext, hkind⟩ := Option.map_eq_some_iff.mp hcolon
  rw [h.head?_collapse next hnext] at hkind
  exact TokenKind.noConfusion hkind

theorem endsLine_newline (tokens : List Token) : EndsLine (newline :: tokens) := by
  intro next hnext
  rw [← Option.some.inj hnext]
  rfl

theorem endsLine_lineTokens (lines : List (List Char)) : EndsLine (lineTokens lines) := by
  cases lines with
  | nil => exact fun next hnext => nomatch hnext
  | cons line lines =>
      rw [lineTokens_cons]
      exact endsLine_newline _

theorem Frays.alike_append (h : Frays tokens tokens') (hends : EndsLine rest)
    (hends' : EndsLine rest') (halike : Alike (collapse rest) (collapse rest')) :
    Alike (collapse (tokens ++ rest)) (collapse (tokens' ++ rest')) := by
  induction h with
  | nil => exact halike
  | @stray token hkind tokens =>
      rw [List.cons_append, collapse_cons_of_ne (by simp [hkind])]
      have hbare : token.bare.kind = .invalid := hkind
      exact .stray hbare _ hends'.head?_collapse
  | @unclosed token token' hopen hopen' =>
      rw [List.singleton_append, List.singleton_append, collapse_cons_of_ne (by simp [hopen.1]),
        collapse_cons_of_ne (by simp [hopen'.1])]
      have hbare : token.bare.Unclosed := hopen
      have hbare' : token'.bare.Unclosed := hopen'
      exact .unclosed hbare hbare' hends.head?_kind_ne hends'.head?_kind_ne
  | cons hkind hbare h ih =>
      rw [List.cons_append, List.cons_append, collapse_cons_of_ne hkind, collapse_cons_of_ne hkind]
      exact .cons rfl ih

/-! ## Lines that count -/

/-- Whether a trimmed line counts in a comparison. -/
def isSignificant (line : List Char) : Bool :=
  !line.isEmpty && !isSignatureLine line

theorem code_of_not_isSignificant {line : List Char} (hline : '\n' ∉ line)
    (h : isSignificant line = false) : code line = [] := by
  cases line with
  | nil => exact code_nil
  | cons c comment =>
      have hmark : isSignatureLine (c :: comment) = true := by simpa [isSignificant] using h
      have hc : c = '\\' := by
        by_contra hne
        rw [isSignatureLine] at hmark
        · exact Bool.false_ne_true hmark
        · intro comment' heq
          exact hne (List.cons.inj heq).1
      rw [hc]
      exact code_comment fun hmem => hline (List.mem_cons_of_mem c hmem)

/-- The tokens of the lines that count, each behind a line break and all before one. -/
def keptTokens (lines : List (List Char)) : List Token :=
  lineTokens ((lines.map Text.trim).filter isSignificant) ++ [newline]

theorem exists_keptTokens (lines : List (List Char)) :
    ∃ later, keptTokens lines = newline :: later := by
  rw [keptTokens]
  generalize (lines.map Text.trim).filter isSignificant = kept
  cases kept with
  | nil => exact ⟨[], rfl⟩
  | cons line kept => exact ⟨_, by rw [lineTokens_cons, List.cons_append]⟩

theorem endsLine_keptTokens (lines : List (List Char)) : EndsLine (keptTokens lines) := by
  obtain ⟨later, hlater⟩ := exists_keptTokens lines
  rw [hlater]
  exact endsLine_newline later

/-- A line that does not count leaves only its break, which is one of several. -/
theorem collapse_keptTokens_cons {line : List Char} (hline : '\n' ∉ line)
    (lines : List (List Char)) :
    collapse (keptTokens (line :: lines)) =
      collapse (newline :: (code (Text.trim line) ++ keptTokens lines)) := by
  have htrim : '\n' ∉ Text.trim line := fun hmem => hline (Text.mem_of_mem_trim hmem)
  rw [keptTokens, List.map_cons]
  by_cases hsignificant : isSignificant (Text.trim line) = true
  · rw [List.filter_cons_of_pos hsignificant, lineTokens_cons, List.cons_append,
      List.append_assoc, keptTokens]
  · obtain ⟨later, hlater⟩ := exists_keptTokens lines
    obtain ⟨behind, hbehind⟩ := exists_collapse_cons newline later
    rw [List.filter_cons_of_neg hsignificant, ← keptTokens,
      code_of_not_isSignificant htrim (Bool.eq_false_iff.mpr hsignificant), List.nil_append,
      collapse_newline, hlater, hbehind, afterBreak_cons_of_eq (kind_worded newline)]

theorem alike_of_invalid (h : token.kind = .invalid) (tokens tokens' : List Token) :
    Alike (collapse (newline :: token :: tokens)) (collapse (newline :: tokens')) := by
  have hne : token.kind ≠ .newline := by simp [h]
  have hbare : token.bare.kind = .invalid := h
  have hneBare : token.bare.kind ≠ .newline := hne
  obtain ⟨behind, hbehind⟩ := exists_collapse_cons newline tokens'
  rw [hbehind, collapse_newline, collapse_cons_of_ne hne,
    afterBreak_cons_of_ne hneBare]
  exact .line (barred_of_invalid hbare _) behind

/-- Tokens stay alike when blanks around lines and lines that do not count are dropped. -/
theorem alike_lineTokens {lines : List (List Char)} (hlines : ∀ line ∈ lines, '\n' ∉ line) :
    Alike (collapse (lineTokens lines)) (collapse (keptTokens lines)) := by
  induction lines with
  | nil => exact .ended fun token hmem => List.mem_singleton.mp hmem
  | cons line lines ih =>
      obtain ⟨hline, hlater⟩ := List.forall_mem_cons.mp hlines
      rw [lineTokens_cons, collapse_keptTokens_cons hline]
      rcases frays_code_trim hline with hfrays | ⟨token, tokens, hcode, hinvalid⟩
      · rw [collapse_newline, collapse_newline]
        exact (hfrays.alike_append (endsLine_lineTokens lines) (endsLine_keptTokens lines)
          (ih hlater)).afterBreak
      · rw [hcode, List.cons_append]
        exact alike_of_invalid hinvalid _ _

end Token

end LinearProgram
