import LinearProgram.Proofs.Document.Pieces

/-!
# Tokens without comments

The tokens that spell a document are neither comments nor the end of a text, so a
reading position keeps all of them, and none of them carries a signature.
-/

namespace LinearProgram

open Token

/-- A token that a reading position keeps. -/
def Token.IsCode (token : Token) : Prop :=
  token.kind ≠ .comment ∧ token.kind ≠ .endOfInput

def AllCode (tokens : List Token) : Prop :=
  ∀ token ∈ tokens, token.IsCode

@[simp] theorem allCode_nil : AllCode [] :=
  fun _ h => absurd h List.not_mem_nil

@[simp] theorem allCode_cons {token : Token} {tokens : List Token} :
    AllCode (token :: tokens) ↔ token.IsCode ∧ AllCode tokens :=
  List.forall_mem_cons

@[simp] theorem allCode_append {front back : List Token} :
    AllCode (front ++ back) ↔ AllCode front ∧ AllCode back :=
  List.forall_mem_append

@[simp] theorem isCode_ident (name : String) : (plain .ident name).IsCode :=
  ⟨TokenKind.noConfusion, TokenKind.noConfusion⟩

@[simp] theorem isCode_newline : newline.IsCode :=
  ⟨TokenKind.noConfusion, TokenKind.noConfusion⟩

@[simp] theorem isCode_minus : minus.IsCode :=
  ⟨TokenKind.noConfusion, TokenKind.noConfusion⟩

@[simp] theorem isCode_plus : plus.IsCode :=
  ⟨TokenKind.noConfusion, TokenKind.noConfusion⟩

@[simp] theorem isCode_colon : colon.IsCode :=
  ⟨TokenKind.noConfusion, TokenKind.noConfusion⟩

@[simp] theorem isCode_number (cs : List Char) : (number cs).IsCode :=
  ⟨TokenKind.noConfusion, TokenKind.noConfusion⟩

@[simp] theorem isCode_word (cs : List Char) : (ident cs).IsCode :=
  ⟨TokenKind.noConfusion, TokenKind.noConfusion⟩

@[simp] theorem isCode_ofRelation (relation : Relation) : (ofRelation relation).IsCode := by
  cases relation <;> exact ⟨TokenKind.noConfusion, TokenKind.noConfusion⟩

@[simp] theorem isCode_senseWord (sense : Sense) : (Document.senseWord sense).IsCode := by
  cases sense <;> exact isCode_ident _

@[simp] theorem allCode_ofNumber (x : Binary64) : AllCode (ofNumber x) := by
  cases x with
  | nan => simp [ofNumber]
  | infinity negative => cases negative <;> simp [ofNumber]
  | finite negative m =>
      rw [ofNumber]
      cases negative && m.quanta != 0 <;> simp

@[simp] theorem allCode_signTokens (isFirst : Bool) (value : Binary64) :
    AllCode (signTokens isFirst value) := by
  rw [signTokens]
  split
  · simp
  · split <;> simp

theorem allCode_term (isFirst : Bool) (term : WrittenTerm) : AllCode (term.tokens isFirst) := by
  rw [WrittenTerm.tokens]
  split <;> simp

theorem Broken.allCode {pieces : List (List Token)} {tokens : List Token}
    (h : Broken pieces tokens) (hpieces : ∀ piece ∈ pieces, AllCode piece) : AllCode tokens := by
  induction h with
  | nil => exact allCode_nil
  | stay _ ih =>
      have hlater := ih fun piece hpiece => hpieces piece (List.mem_cons_of_mem _ hpiece)
      exact allCode_append.mpr ⟨hpieces _ List.mem_cons_self, hlater⟩
  | wrap _ ih =>
      have hlater := ih fun piece hpiece => hpieces piece (List.mem_cons_of_mem _ hpiece)
      exact allCode_cons.mpr
        ⟨isCode_newline, allCode_append.mpr ⟨hpieces _ List.mem_cons_self, hlater⟩⟩

theorem allCode_of_mem_termPieces {isFirst : Bool} {terms : List WrittenTerm}
    {piece : List Token} (h : piece ∈ WrittenExpr.termPieces isFirst terms) : AllCode piece := by
  induction terms generalizing isFirst with
  | nil => exact absurd h List.not_mem_nil
  | cons term terms ih =>
      rcases List.mem_cons.mp h with rfl | hlater
      · exact allCode_term isFirst term
      · exact ih hlater

theorem allCode_of_mem_pieces {expr : WrittenExpr} {piece : List Token}
    (h : piece ∈ expr.pieces) : AllCode piece := by
  rw [WrittenExpr.pieces] at h
  rcases List.mem_append.mp h with hterm | hconstant
  · exact allCode_of_mem_termPieces hterm
  · split at hconstant
    · rw [List.mem_singleton.mp hconstant, WrittenExpr.constantTokens]
      simp
    · exact absurd hconstant List.not_mem_nil

theorem Row.Laid.allCode {row : Row} {tokens : List Token} (h : row.Laid tokens) :
    AllCode tokens := by
  obtain ⟨-, hbroken⟩ := h
  have hcode : AllCode _ := hbroken.allCode fun piece hpiece => by
    rcases List.mem_append.mp hpiece with hexpr | hrelation
    · exact allCode_of_mem_pieces hexpr
    · rw [List.mem_singleton.mp hrelation]
      simp
  simp [hcode]

theorem allCode_boundStatement (statement : BoundStatement) : AllCode statement.tokens := by
  rw [BoundStatement.tokens]
  split
  · simp
  · simp
  · simp
  · split
    · simp
    · split <;> simp

theorem Lines.allCode {α : Type} {laid : α → List Token → Prop} {xs : List α}
    {tokens : List Token} (h : Lines laid xs tokens)
    (hlaid : ∀ x tokens, laid x tokens → AllCode tokens) : AllCode tokens := by
  induction h with
  | nil => exact allCode_nil
  | cons hfirst _ ih => simp [hlaid _ _ hfirst, ih]

namespace Document

theorem LaidSection.allCode {α : Type} {words : List Token} {laid : List α → List Token → Prop}
    {xs : List α} {tokens : List Token} (h : LaidSection words laid xs tokens)
    (hwords : AllCode words) (hlaid : ∀ xs tokens, laid xs tokens → AllCode tokens) :
    AllCode tokens := by
  cases h with
  | absent => exact allCode_nil
  | present hpresent => simp [hwords, hlaid _ _ hpresent]

theorem LaidNames.allCode {names : List String} {tokens : List Token}
    (h : LaidNames names tokens) : AllCode tokens := by
  obtain ⟨broken, hbroken, rfl⟩ := h
  have hcode := hbroken.allCode fun piece hpiece => by
    obtain ⟨name, -, rfl⟩ := List.mem_map.mp hpiece
    simp
  simp [hcode]

theorem Laid.allCode {document : Document} {tokens : List Token} (h : document.Laid tokens) :
    AllCode tokens := by
  obtain ⟨hobjective, hrows, hbounds, hgenerals, hbinaries⟩ := h
  have hobjective := hobjective.allCode fun _ => allCode_of_mem_pieces
  have hrows := hrows.allCode fun _ _ hlaid => hlaid.allCode
  have hbounds := hbounds.allCode (by simp) fun _ _ hlines =>
    hlines.allCode fun statement _ heq => heq ▸ allCode_boundStatement statement
  have hgenerals := hgenerals.allCode (by simp) fun _ _ hlaid => hlaid.allCode
  have hbinaries := hbinaries.allCode (by simp) fun _ _ hlaid => hlaid.allCode
  simp [hobjective, hrows, hbounds, hgenerals, hbinaries]

end Document

/-- A reading position keeps the tokens of a document. -/
theorem AllCode.filter_eq {tokens : List Token} (h : AllCode tokens) :
    tokens.filter (fun token => token.kind ≠ .comment ∧ token.kind ≠ .endOfInput) = tokens := by
  rw [List.filter_eq_self]
  intro token htoken
  exact decide_eq_true (h token htoken)

theorem AllCode.findSome?_signature {tokens : List Token} (h : AllCode tokens) :
    tokens.findSome? signatureOfComment? = none := by
  rw [List.findSome?_eq_none_iff]
  intro token htoken
  rw [signatureOfComment?, if_neg (h token htoken).1]

end LinearProgram
