import LinearProgram.Proofs.Document.Alike
import LinearProgram.Proofs.Document.Naturality
import LinearProgram.Proofs.Token.Tiling

/-!
# Comments, blank lines and spacing

A reader drops comments and goes over line breaks wherever a line may end, so it does not
see how many breaks there are, nor those in front of a document.  Two texts whose tokens
agree in what is left are read alike: as the same document but for places and signature,
or with the same error but for its place.  The main statement is
`Document.parse_of_visible_eq`.
-/

namespace LinearProgram

open Token

namespace Token

/-- What a reader sees of tokens: no comments, no line breaks in front, no two in a row. -/
def visible (tokens : List Token) : List Token :=
  collapse ((tokens.filter fun token => token.kind ≠ .comment).dropWhile
    fun token => token.kind = .newline)

theorem collapse_append_singleton {token : Token} (h : token.kind ≠ .newline)
    (tokens : List Token) : collapse (tokens ++ [token]) = collapse tokens ++ [token.bare] := by
  induction tokens with
  | nil => exact collapse_cons_of_ne h []
  | cons first tokens ih =>
      have hhead : (tokens ++ [token]).head?.map Token.kind = some .newline ↔
          tokens.head?.map Token.kind = some .newline := by
        cases tokens with
        | nil => simp [h]
        | cons next tokens => rfl
      rw [List.cons_append, collapse, collapse]
      by_cases hdropped : first.kind = .newline ∧ tokens.head?.map Token.kind = some .newline
      · rw [if_pos hdropped, if_pos ⟨hdropped.1, hhead.mpr hdropped.2⟩, ih]
      · rw [if_neg hdropped, if_neg fun hand => hdropped ⟨hand.1, hhead.mp hand.2⟩, ih,
          List.cons_append]

/-- What is seen of a text is what is seen of its code, with the end of the input. -/
theorem visible_scan (source : String) :
    visible (scan source) =
      collapse ((Cursor.ofTokens (scan source)).rest.dropWhile
        fun token => token.kind = .newline) ++ [plain .endOfInput ""] := by
  obtain ⟨front, hscan, hfront⟩ := exists_scan_eq_append source
  have hcode : front.filter (fun token => token.kind ≠ .comment ∧ token.kind ≠ .endOfInput) =
      front.filter fun token => token.kind ≠ .comment := by
    refine List.filter_congr fun token hmem => ?_
    simp [(hfront token hmem).1]
  rw [visible, hscan, Cursor.ofTokens, List.filter_append, List.filter_append, hcode]
  generalize front.filter (fun token => token.kind ≠ .comment) = code
  have hend (span : Span) : (⟨.endOfInput, span, ""⟩ : Token).kind ≠ .newline :=
    TokenKind.noConfusion
  have hdrop (last : Token) (hlast : last.kind ≠ .newline) :
      (code ++ [last]).dropWhile (fun token => token.kind = .newline) =
        code.dropWhile (fun token => token.kind = .newline) ++ [last] := by
    rw [List.dropWhile_append]
    split
    · next hnone =>
        rw [List.isEmpty_iff.mp hnone, List.dropWhile_cons_of_neg (by simpa using hlast)]
        rfl
    · rfl
  simp only [List.filter_cons, List.filter_nil, List.append_nil, ne_eq, reduceCtorEq,
    not_false_eq_true, decide_true, if_true, not_true, and_false, decide_false, if_false,
    Bool.false_eq_true]
  rw [hdrop _ (hend _), collapse_append_singleton (hend _)]
  rfl

end Token

/-! ## Line breaks in front -/

namespace Reader

/-- A line break before a document changes nothing. -/
theorem objectiveSection_newline (tokens : List Token) :
    objectiveSection ⟨none, newline :: tokens⟩ = objectiveSection ⟨none, tokens⟩ := by
  rw [objectiveSection, objectiveSection, Cursor.skipNewlines_newline]
  cases tokens with
  | nil => rfl
  | cons token tokens =>
      by_cases hkind : token.kind = .newline
      · have hsame : (Cursor.mk (some newline) (token :: tokens)).skipNewlines =
            (Cursor.mk none (token :: tokens)).skipNewlines :=
          (Cursor.skipNewlinesFrom_cons_of_eq hkind _ _).trans
            (Cursor.skipNewlinesFrom_cons_of_eq hkind _ _).symm
        rw [hsame]
      · rw [Cursor.skipNewlines_cons hkind, Cursor.skipNewlines_cons hkind]
        rfl

end Reader

namespace Document

theorem sectionsFrom_newline (signature : Option String) (tokens : List Token) :
    sectionsFrom signature ⟨none, newline :: tokens⟩ = sectionsFrom signature ⟨none, tokens⟩ := by
  rw [sectionsFrom, sectionsFrom, Reader.objectiveSection_newline]

/-- Any number of line breaks before a document changes nothing. -/
theorem sectionsFrom_dropWhile (signature : Option String) (tokens : List Token) :
    sectionsFrom signature
        ⟨none, collapse (tokens.dropWhile fun token => token.kind = .newline)⟩ =
      sectionsFrom signature ⟨none, collapse tokens⟩ := by
  induction tokens with
  | nil => rfl
  | cons token tokens ih =>
      by_cases hkind : token.kind = .newline
      · rw [List.dropWhile_cons_of_pos (by simpa using hkind), ih, collapse]
        split
        · rfl
        · rw [worded_of_eq hkind, sectionsFrom_newline]
      · rw [List.dropWhile_cons_of_neg (by simpa using hkind)]

/-! ## Documents apart from places and signature -/

/-- A document without places and signature. -/
def unsigned (document : Document) : Document :=
  { document.bare with signature := none }

/-- What is read, without places and signature. -/
def visibleOutcome : Except ParseError Document → Except ParseError Document
  | .ok document => .ok document.unsigned
  | .error error => .error error.bare

theorem visibleOutcome_sectionsFrom (signature : Option String) (c : Cursor) :
    visibleOutcome (sectionsFrom signature c) = bareOutcome (sectionsFrom none c) := by
  rw [sectionsFrom, sectionsFrom]
  cases Reader.objectiveSection c with
  | error error => rfl
  | ok found =>
      obtain ⟨objective, next⟩ := found
      rw [Reader.ok_bind, Reader.ok_bind]
      dsimp only
      cases Reader.manyUntil Reader.atDocumentEnd Reader.part Reader.part_shortens next with
      | error error => rfl
      | ok sections => rfl

/-- What is read of a text depends on what is seen of its tokens. -/
theorem visibleOutcome_parse (source : String) :
    visibleOutcome (parse source) =
      sectionsFrom none ⟨none, collapse ((Cursor.ofTokens (scan source)).rest.dropWhile
        fun token => token.kind = .newline)⟩ := by
  rw [parse, ofTokens_eq, visibleOutcome_sectionsFrom, ← sectionsFrom_collapsed,
    sectionsFrom_dropWhile]
  rfl

/--
Comments, blank lines and spacing are invisible.  Texts of which the same is seen are
either both read, as documents that agree apart from places and signature, or both
refused, with errors that agree apart from the place.
-/
theorem parse_of_visible_eq {source source' : String}
    (h : visible (scan source) = visible (scan source')) :
    (∃ document document', parse source = .ok document ∧ parse source' = .ok document' ∧
        document.unsigned = document'.unsigned) ∨
      ∃ error error', parse source = .error error ∧ parse source' = .error error' ∧
        error.bare = error'.bare := by
  rw [visible_scan, visible_scan] at h
  have hsame : visibleOutcome (parse source) = visibleOutcome (parse source') := by
    rw [visibleOutcome_parse, visibleOutcome_parse, List.append_cancel_right h]
  cases hparse : parse source with
  | ok document =>
      cases hparse' : parse source' with
      | ok document' =>
          rw [hparse, hparse'] at hsame
          exact .inl ⟨document, document', rfl, rfl, Except.ok.inj hsame⟩
      | error error' =>
          rw [hparse, hparse'] at hsame
          cases hsame
  | error error =>
      cases hparse' : parse source' with
      | ok document' =>
          rw [hparse, hparse'] at hsame
          cases hsame
      | error error' =>
          rw [hparse, hparse'] at hsame
          exact .inr ⟨error, error', rfl, rfl, Except.error.inj hsame⟩

def closeUp : String :=
  "Minimize\nx\nSubject To\nc: x\n<= 4\nEnd\n"

/-- The same with comments, blank lines and other spacing. -/
def spacedOut : String :=
  "\n\\ cost\nMinimize\n\n x\n\\ Signature: 00\n\nSubject To\r\n\tc :x\n\n<=4 \\ cap\nEnd\n\n"

theorem parse_of_visible_eq_spacedOut :
    visible (scan spacedOut) = visible (scan closeUp) ∧ ∃ document document',
      parse spacedOut = .ok document ∧ parse closeUp = .ok document' ∧
        document.unsigned = document'.unsigned := by
  have hvisible : visible (scan spacedOut) = visible (scan closeUp) := by decide +kernel
  have hread : (parse spacedOut).toOption.isSome = true := by decide +kernel
  obtain ⟨document, hdocument⟩ := Reader.exists_of_isSome_toOption hread
  rcases parse_of_visible_eq hvisible with hok | ⟨error, _, herror, -, -⟩
  · exact ⟨hvisible, hok⟩
  · cases hdocument.symm.trans herror

end Document

end LinearProgram
