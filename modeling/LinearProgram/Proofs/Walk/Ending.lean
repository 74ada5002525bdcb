import LinearProgram.Proofs.Token.Taking
import LinearProgram.Proofs.Walk.Agreement

/-!
# Reading ends

The tokens of a text without its comments are a track, so what is known of walks over tracks
holds of the walk that reads a document: it ends, with the document or the error that the
parser gives, and on the way it neither passes the end of the input nor takes a turn of a loop
for nothing.  The main statement is `Document.reading_ends`.
-/

namespace LinearProgram

open Token (scan)

/-- Without its comments a text is a track, and the parser begins in front of it. -/
theorem Track.exists_of_scan (source : String) :
    ∃ track : Track, (scan source).filter (fun token => token.kind ≠ .comment) = track.tokens ∧
      Cursor.ofTokens (scan source) = ⟨none, track.front⟩ := by
  obtain ⟨front, hscan, hfront⟩ := Token.exists_scan_eq_append source
  have hcode : front.filter (fun token => token.kind ≠ .comment ∧ token.kind ≠ .endOfInput) =
      front.filter fun token => token.kind ≠ .comment := by
    refine List.filter_congr fun token hmem => ?_
    simp [(hfront token hmem).1]
  refine ⟨{
    front := front.filter fun token => token.kind ≠ .comment
    finish := ⟨.endOfInput, ⟨source.utf8ByteSize, source.utf8ByteSize⟩, ""⟩
    kind_finish := rfl
    kind_front := fun token hmem => (hfront token (List.mem_of_mem_filter hmem)).1 }, ?_, ?_⟩
  · rw [hscan, List.filter_append]
    rfl
  · rw [Cursor.ofTokens, hscan, List.filter_append, hcode]
    simp

namespace Walk

/-- What is read of a document from where its code begins. -/
def documentFrom (tokens : List Token) (c : Cursor) : Except ParseError (Document × Cursor) :=
  Reader.objectiveSection c >>= fun objective => partsThrough objective.2 >>= fun parts =>
    .ok (.ofParts (tokens.findSome? signatureOfComment?) objective.1 parts.1, parts.2)

theorem yields_document {track : Track} {tokens : List Token}
    (hseen : tokens.filter (fun token => token.kind ≠ .comment) = track.tokens) (c : Cursor) :
    Yields track (document tokens) c (documentFrom tokens c) := by
  rw [document, hseen]
  refine (yields_objectiveSection c).bind fun objective d _ => ?_
  exact (yields_parts d).bind fun parts e _ => yields_pure _ e

theorem documentFrom_map_fst (tokens : List Token) :
    (documentFrom tokens (.ofTokens tokens)).map Prod.fst = Document.ofTokens tokens := by
  rw [Document.ofTokens_eq, Document.sectionsFrom, documentFrom]
  cases Reader.objectiveSection (.ofTokens tokens) with
  | error error => rfl
  | ok objective =>
      rw [Reader.ok_bind, Reader.ok_bind, partsThrough]
      dsimp only
      cases Reader.manyUntil Reader.atDocumentEnd Reader.part Reader.part_shortens objective.2 with
      | error error => rfl
      | ok parts => rfl

end Walk

/--
Reading ends on every text.  A loop without a bound, which takes one token after the other,
gives the tokens of the text, at most one for each character and the end of the input.  The
walk over them gives what the parser gives.  Every position at which it stands, whether it fails
or not, is a position of the tokens without the comments, of which the last one and no other is
the end of the input; and every turn of a loop that another one follows moves on.
-/
theorem Document.reading_ends (source : String) :
    Token.takeAll source = Part.some (scan source) ∧
      (scan source).length ≤ source.toList.length + 1 ∧
      ∃ front finish outcome journey,
        (scan source).filter (fun token => token.kind ≠ .comment) = front ++ [finish] ∧
        finish.kind = .endOfInput ∧ (∀ token ∈ front, token.kind ≠ .endOfInput) ∧
        (Walk.document (scan source)).runFrom .start = Part.some (outcome, journey) ∧
        outcome = Document.parse source ∧
        (∀ position ∈ journey.visited, position ≤ front.length) ∧
        ∀ turn ∈ journey.turns, turn.start < turn.stop := by
  obtain ⟨track, hseen, hstart⟩ := Track.exists_of_scan source
  have hdocument := Walk.yields_document hseen (.ofTokens (scan source))
  have hstands : (Cursor.ofTokens (scan source)).StandsAt track 0 := by
    rw [hstart]
    exact Cursor.standsAt_zero track
  obtain ⟨outcome, journey, hrun, hsound, houtcome, -⟩ :=
    hdocument .start (Journey.sound_start track) hstands
  refine ⟨Token.takeAll_eq source, Token.length_scanFrom_le 0 source.toList, ?_⟩
  exact ⟨track.front, track.finish, outcome, journey, hseen, track.kind_finish,
    track.kind_front, hrun, houtcome.trans (Walk.documentFrom_map_fst _), hsound.visited,
    hsound.turns⟩

end LinearProgram
