import LinearProgram.Proofs.Signature.Comment
import LinearProgram.Signature

/-!
# Signatures written and read

Each byte of a signature is written as two hexadecimal digits, which are ASCII characters
and so are one byte each when they are read.  Reading takes the digits in pairs, and every
pair gives the byte for which it was written.  The main statement is `parse_text`: a
written signature is read as the same signature.
-/

namespace LinearProgram

/-- The bytes of a text are those of its characters. -/
theorem toUTF8_ofList (cs : List Char) :
    (String.ofList cs).toUTF8.data.toList = cs.flatMap String.utf8EncodeChar := by
  change (cs.flatMap String.utf8EncodeChar).toByteArray.data.toList = _
  rw [List.data_toByteArray]

namespace Signature

/-- The byte of a hexadecimal digit. -/
def digitByte (n : Nat) : UInt8 :=
  (hexDigit n).val.toUInt8

theorem utf8EncodeChar_hexDigit : ∀ n < 16, String.utf8EncodeChar (hexDigit n) = [digitByte n] := by
  decide

theorem digitValue?_digitByte : ∀ n < 16, digitValue? (digitByte n) = some n := by
  decide

/-- The two digits of a byte, as bytes. -/
theorem flatMap_hexOfByte (byte : UInt8) :
    (hexOfByte byte).flatMap String.utf8EncodeChar =
      [digitByte (byte.toNat / 16), digitByte (byte.toNat % 16)] := by
  have hlt := byte.toNat_lt
  rw [hexOfByte, List.flatMap_cons, List.flatMap_singleton,
    utf8EncodeChar_hexDigit _ (by omega), utf8EncodeChar_hexDigit _ (by omega)]
  rfl

theorem decodePairs_written (index : Nat) (bytes : List UInt8) :
    decodePairs index ((bytes.flatMap hexOfByte).flatMap String.utf8EncodeChar) = .ok bytes := by
  induction bytes generalizing index with
  | nil => rfl
  | cons byte bytes ih =>
      have hlt := byte.toNat_lt
      have hbyte : UInt8.ofNat (16 * (byte.toNat / 16) + byte.toNat % 16) = byte := by
        rw [Nat.div_add_mod, UInt8.ofNat_toNat]
      rw [List.flatMap_cons, List.flatMap_append, flatMap_hexOfByte]
      simp only [List.cons_append, List.nil_append, decodePairs]
      rw [digitValue?_digitByte _ (by omega), digitValue?_digitByte _ (by omega), ih]
      simp only [Except.map, hbyte]

theorem length_written (bytes : List UInt8) :
    ((bytes.flatMap hexOfByte).flatMap String.utf8EncodeChar).length = 2 * bytes.length := by
  induction bytes with
  | nil => rfl
  | cons byte bytes ih =>
      rw [List.flatMap_cons, List.flatMap_append, flatMap_hexOfByte, List.length_append, ih,
        List.length_cons, List.length_cons, List.length_cons, List.length_nil]
      omega

/-- The digits of some bytes are decoded as these bytes. -/
theorem decodeHex_written (bytes : List UInt8) :
    decodeHex (String.ofList (bytes.flatMap hexOfByte)).toUTF8.data.toList = .ok bytes := by
  rw [toUTF8_ofList, decodeHex, length_written, if_neg (by omega), decodePairs_written]

/-- A written signature is read as the same signature. -/
theorem parse_text (signature : Signature) : parse signature.text = .ok signature := by
  have htrim : Text.trim signature.text.toList = signature.chars := by
    rw [text, String.toList_ofList]
    exact Text.trim_of_not_blank signature.chars_ne_nil fun c hc => isBlank_of_mem_chars hc
  have hstrip : Text.stripStart? ['0', 'x'] signature.chars =
      some (signature.bytes.toList.flatMap hexOfByte) := Text.stripStart?_eq_some_iff.mpr rfl
  rw [parse, htrim, hstrip]
  dsimp only
  rw [decodeHex_written]
  dsimp only
  rw [dif_pos signature.bytes.length_toList]
  rfl

end Signature

end LinearProgram
