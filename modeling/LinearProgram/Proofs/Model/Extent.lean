import LinearProgram.Model.Printer

/-!
# Texts that can be held

What is written for a model without problems is a body behind a header, as long as the
program can hold the text.  A text that grows may take twice the room that it needs, so
only half of the limit is promised: `FitsStorage` asks that the indentation and the whole
text stay below it, and `write_eq` says what is written then.  Nothing is written with an
indentation that no text can hold.
-/

namespace LinearProgram

/-- A text with fewer bytes than this is held even while its room is doubled. -/
def WriteOutcome.safeLength : Nat :=
  4611686018427387904

/-! ## Bytes -/

theorem utf8ByteSize_ofList_eq (cs : List Char) :
    (String.ofList cs).utf8ByteSize = byteLength cs := by
  induction cs with
  | nil => rfl
  | cons c cs ih =>
      rw [String.ofList_cons, String.utf8ByteSize_append, ih, String.utf8ByteSize_singleton]
      rfl

/-- A character takes up at most four bytes. -/
theorem byteLength_le (cs : List Char) : byteLength cs ≤ 4 * cs.length := by
  induction cs with
  | nil => exact Nat.zero_le _
  | cons c cs ih =>
      have hsize := c.utf8Size_le_four
      rw [byteLength, List.length_cons]
      omega

theorem Signature.length_chars (signature : Signature) : signature.chars.length = 18 := by
  have hbytes : (signature.bytes.toList.flatMap hexOfByte).length = 16 := by
    simp [List.length_flatMap, hexOfByte, List.map_const']
  rw [chars, List.length_cons, List.length_cons, hbytes]

namespace Model

/-- No header has more bytes than this. -/
def headerLimit : Nat :=
  264

theorem byteLength_header_le (options : WriteOptions) (body : List Char) :
    byteLength (header options body) ≤ headerLimit := by
  have hlength : (header options body).length ≤ 66 := by
    have hbanner : banner.length = 33 := by decide
    have hmark : "\\ Signature: ".toList.length = 13 := by decide
    have hsignature := (Signature.ofText (String.ofList body)).length_chars
    rw [header, List.length_append, hbanner, List.length_cons]
    split
    · simp only [List.length_append, List.length_singleton]
      omega
    · exact Nat.le_add_left _ _
  have hle := byteLength_le (header options body)
  rw [headerLimit]
  omega

/-! ## What can be held -/

/-- Whether the indentation and the whole text of a model are promised to be held. -/
structure FitsStorage (model : Model) (options : WriteOptions) : Prop where
  indent : options.continuationIndent < WriteOutcome.safeLength
  text : ∀ text, model.render options = .ok text →
    text.utf8ByteSize < WriteOutcome.safeLength

variable {model : Model} {options : WriteOptions} {body : List Char}

theorem render_eq (hissues : model.issues = []) (hbody : model.body options = .ok body) :
    model.render options = .ok (String.ofList (header options body ++ body)) := by
  rw [render, ensureValid, hissues]
  dsimp only
  rw [hbody]

theorem exists_body_of_render {text : String} (hrender : model.render options = .ok text) :
    model.issues = [] ∧ ∃ body, model.body options = .ok body ∧
      text = String.ofList (header options body ++ body) := by
  rw [render, ensureValid] at hrender
  cases hissues : model.issues with
  | cons issue issues =>
      rw [hissues] at hrender
      cases hrender
  | nil =>
      rw [hissues] at hrender
      cases hbody : model.body options with
      | error cause =>
          rw [hbody] at hrender
          cases hrender
      | ok body =>
          rw [hbody] at hrender
          exact ⟨rfl, body, rfl, (Except.ok.inj hrender).symm⟩

/-- A short indentation and a short body fit, since the header is short. -/
theorem fitsStorage_of_body (hindent : options.continuationIndent < WriteOutcome.safeLength)
    (hbody : ∀ body ∈ (model.body options).toOption,
      headerLimit + byteLength body < WriteOutcome.safeLength) :
    model.FitsStorage options := by
  refine ⟨hindent, fun text hrender => ?_⟩
  obtain ⟨-, body, hok, rfl⟩ := exists_body_of_render hrender
  have hlength := hbody body (by rw [hok]; rfl)
  have hheader := byteLength_header_le options body
  rw [utf8ByteSize_ofList_eq, byteLength_append]
  omega

/-! ## What is written -/

theorem write_eq_hold (hindent : options.continuationIndent < WriteOutcome.textLimit) :
    model.write options = .hold (model.render options) := by
  rw [write, decide_eq_false (Nat.not_le.mpr hindent), Bool.and_false, if_neg Bool.false_ne_true]

/-- A text that fits is written: the body behind its header. -/
theorem write_eq (hissues : model.issues = []) (hfits : model.FitsStorage options)
    (hbody : model.body options = .ok body) :
    model.write options = .ok (String.ofList (header options body ++ body)) := by
  have hlimit : WriteOutcome.safeLength < WriteOutcome.textLimit := by decide
  have hrender := render_eq hissues hbody
  rw [write_eq_hold (Nat.lt_trans hfits.indent hlimit), hrender, WriteOutcome.hold,
    if_pos (Nat.lt_trans (hfits.text _ hrender) hlimit)]

theorem write_eq_overflow (hissues : model.issues = [])
    (hindent : WriteOutcome.textLimit ≤ options.continuationIndent) :
    model.write options = .overflow := by
  rw [write, hissues, decide_eq_true hindent]
  rfl

theorem render_eq_invalid (hissues : model.issues ≠ []) (options : WriteOptions) :
    model.render options = .error (.invalid (.modelInvalid model.issues)) := by
  rw [render, ensureValid]
  cases hlist : model.issues with
  | nil => exact absurd hlist hissues
  | cons issue issues => rfl

theorem write_eq_invalid (hissues : model.issues ≠ []) (options : WriteOptions) :
    model.write options = .error (.invalid (.modelInvalid model.issues)) := by
  rw [write, render_eq_invalid hissues, List.isEmpty_eq_false_iff.mpr hissues]
  rfl

/-- What is written has come from a model without problems, and is a body behind its header. -/
theorem exists_body_of_write {text : String} (hwrite : model.write options = .ok text) :
    model.issues = [] ∧ ∃ body, model.body options = .ok body ∧
      text = String.ofList (header options body ++ body) := by
  rw [write] at hwrite
  split at hwrite
  · cases hwrite
  · cases hrender : model.render options with
    | error error =>
        rw [hrender] at hwrite
        cases hwrite
    | ok found =>
        rw [hrender, WriteOutcome.hold] at hwrite
        split at hwrite
        · cases hwrite
          exact exists_body_of_render hrender
        · cases hwrite

end Model

end LinearProgram
