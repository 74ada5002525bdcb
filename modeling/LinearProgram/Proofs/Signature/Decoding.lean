import LinearProgram.Proofs.Signature.Digits
import Mathlib.Data.Bool.AllAny

/-!
# What is read as a signature

A signature is read from `0x` and hexadecimal digits of either case, with any blanks around
them.  The digits are decoded as bytes of UTF-8, so a character that is no digit is refused
at its first byte, and a text of digits is one byte for each character.  Five things can
come of a text, and `Signature.ReadsAs` says which of them does by the form that the text
has.  The main statement is `Signature.parse_exact`.
-/

namespace LinearProgram

namespace Signature

/-- The hexadecimal digits of both cases. -/
def hexDigits : List Char :=
  "0123456789abcdefABCDEF".toList

/-- The bytes of some characters. -/
def utf8 (cs : List Char) : List UInt8 :=
  cs.flatMap String.utf8EncodeChar

/-- The bytes of the hexadecimal digits. -/
def hexBytes : List UInt8 :=
  utf8 hexDigits

/-- What a text is read as, by the form that it has without the blanks around it. -/
inductive ReadsAs (text : String) : Except SignatureError Signature → Prop
  | missingStart (hstart : ¬['0', 'x'] <+: Text.trim text.toList) :
      ReadsAs text (.error (.missingStart text))
  | oddLength {digits : List Char} (htrim : Text.trim text.toList = '0' :: 'x' :: digits)
      (hodd : (utf8 digits).length % 2 = 1) : ReadsAs text (.error .oddLength)
  | invalidDigit {digits : List Char} {front later : List UInt8} {byte : UInt8}
      (htrim : Text.trim text.toList = '0' :: 'x' :: digits)
      (heven : (utf8 digits).length % 2 = 0) (hcut : utf8 digits = front ++ byte :: later)
      (hfront : ∀ digit ∈ front, digit ∈ hexBytes) (hbyte : byte ∉ hexBytes) :
      ReadsAs text (.error (.invalidDigit byte front.length))
  | invalidLength {digits : List Char} {size : Nat}
      (htrim : Text.trim text.toList = '0' :: 'x' :: digits)
      (hdigits : ∀ c ∈ digits, c ∈ hexDigits) (hsize : digits.length = 2 * size)
      (hne : size ≠ 8) : ReadsAs text (.error (.invalidLength size))
  | signature {digits : List Char} {signature : Signature}
      (htrim : Text.trim text.toList = '0' :: 'x' :: digits)
      (hdigits : ∀ c ∈ digits, c ∈ hexDigits) (hlength : digits.length = 16)
      (hwritten : signature.text = asciiLower (String.ofList (Text.trim text.toList))) :
      ReadsAs text (.ok signature)

/-! ## Digits and their bytes -/

/-- A digit of either case is one byte, whose value is written as the small digit. -/
theorem exists_value_of_mem_hexDigits :
    ∀ c ∈ hexDigits, ∃ n < 16, String.utf8EncodeChar c = [c.val.toUInt8] ∧
      digitValue? c.val.toUInt8 = some n ∧ hexDigit n = c.toLower :=
  List.all_iff_forall_prop.mp (by decide)

theorem digitValue?_eq_none_iff (byte : UInt8) : digitValue? byte = none ↔ byte ∉ hexBytes := by
  have hall : ∀ n < 256, digitValue? (UInt8.ofNat n) = none ↔ UInt8.ofNat n ∉ hexBytes := by
    decide +kernel
  have hbyte := hall byte.toNat byte.toNat_lt
  rwa [UInt8.ofNat_toNat] at hbyte

theorem exists_digitValue? {byte : UInt8} (h : byte ∈ hexBytes) :
    ∃ n, digitValue? byte = some n :=
  Option.ne_none_iff_exists'.mp fun hnone => (digitValue?_eq_none_iff byte).mp hnone h

/-- A character outside of ASCII begins with a byte that is no digit. -/
theorem exists_not_mem_hexBytes {c : Char} (h : 127 < c.val.toNat) :
    ∃ byte ∈ String.utf8EncodeChar c, byte ∉ hexBytes := by
  have hsmall : ∀ byte ∈ hexBytes, byte.toNat < 128 :=
    List.all_iff_forall_prop.mp (by decide)
  have hlarge {n : Nat} (hlow : 128 ≤ n) (hhigh : n < 256) : UInt8.ofNat n ∉ hexBytes := by
    intro hmem
    have hlt := hsmall _ hmem
    rw [UInt8.toNat_ofNat_of_lt' hhigh] at hlt
    omega
  have hnot : ¬c.val.toNat ≤ 127 := by omega
  simp only [String.utf8EncodeChar, if_neg hnot]
  split
  · exact ⟨_, List.mem_cons_self, hlarge (by omega) (by omega)⟩
  · split
    · exact ⟨_, List.mem_cons_self, hlarge (by omega) (by omega)⟩
    · exact ⟨_, List.mem_cons_self, hlarge (by omega) (by omega)⟩

/-- A character whose bytes are digits is a digit. -/
theorem mem_hexDigits_of_bytes {c : Char}
    (h : ∀ byte ∈ String.utf8EncodeChar c, byte ∈ hexBytes) : c ∈ hexDigits := by
  have hascii : c.val.toNat ≤ 127 := by
    by_contra hnot
    obtain ⟨byte, hmem, hbyte⟩ := exists_not_mem_hexBytes (Nat.lt_of_not_le hnot)
    exact hbyte (h byte hmem)
  have hall : ∀ n < 128, UInt8.ofNat n ∈ hexBytes → Char.ofNat n ∈ hexDigits := by
    decide +kernel
  have hsingle : UInt8.ofNat c.val.toNat ∈ hexBytes := by
    refine h _ ?_
    rw [String.utf8EncodeChar, if_pos hascii]
    exact List.mem_singleton_self _
  have hmem := hall c.toNat (Nat.lt_succ_of_le hascii) hsingle
  rwa [Char.ofNat_toNat] at hmem

/-- Digits are one byte each. -/
theorem length_utf8 {digits : List Char} (h : ∀ c ∈ digits, c ∈ hexDigits) :
    (utf8 digits).length = digits.length := by
  have hone : ∀ c ∈ digits, (String.utf8EncodeChar c).length = 1 := by
    intro c hc
    obtain ⟨-, -, hsingle, -⟩ := exists_value_of_mem_hexDigits c (h c hc)
    rw [hsingle, List.length_singleton]
  rw [utf8, List.length_flatMap, List.map_congr_left hone, List.map_const',
    List.sum_replicate_nat, Nat.mul_one]

/-- Bytes are all digits, or there is a first one that is not. -/
theorem forall_mem_hexBytes_or (bytes : List UInt8) :
    (∀ byte ∈ bytes, byte ∈ hexBytes) ∨ ∃ front byte later, bytes = front ++ byte :: later ∧
      (∀ digit ∈ front, digit ∈ hexBytes) ∧ byte ∉ hexBytes := by
  induction bytes with
  | nil => exact .inl fun byte hmem => absurd hmem List.not_mem_nil
  | cons first bytes ih =>
      by_cases hfirst : first ∈ hexBytes
      · rcases ih with hall | ⟨front, byte, later, rfl, hfront, hbyte⟩
        · exact .inl (List.forall_mem_cons.mpr ⟨hfirst, hall⟩)
        · exact .inr ⟨first :: front, byte, later, rfl,
            List.forall_mem_cons.mpr ⟨hfirst, hfront⟩, hbyte⟩
      · exact .inr ⟨[], first, bytes, rfl, fun digit hmem => absurd hmem List.not_mem_nil, hfirst⟩

/-! ## Decoding -/

/-- Pairs of digits are decoded as bytes that are written with the same digits made small. -/
theorem decodePairs_hexDigits (index : Nat) :
    ∀ digits : List Char, (∀ c ∈ digits, c ∈ hexDigits) → digits.length % 2 = 0 →
      ∃ bytes, decodePairs index (utf8 digits) = .ok bytes ∧ digits.length = 2 * bytes.length ∧
        bytes.flatMap hexOfByte = digits.map Char.toLower
  | [], _, _ => ⟨[], rfl, rfl, rfl⟩
  | [_], _, heven => absurd heven Nat.one_ne_zero
  | high :: low :: digits, hdigits, heven => by
      obtain ⟨hhigh, hbehind⟩ := List.forall_mem_cons.mp hdigits
      obtain ⟨hlow, hlater⟩ := List.forall_mem_cons.mp hbehind
      obtain ⟨h, hlt, hencode, hvalue, hsmall⟩ := exists_value_of_mem_hexDigits high hhigh
      obtain ⟨l, hlt', hencode', hvalue', hsmall'⟩ := exists_value_of_mem_hexDigits low hlow
      have heven' : digits.length % 2 = 0 := by
        simp only [List.length_cons] at heven
        omega
      obtain ⟨bytes, hdecode, hlength, hwritten⟩ :=
        decodePairs_hexDigits (index + 2) digits hlater heven'
      have hbyte : (UInt8.ofNat (16 * h + l)).toNat = 16 * h + l :=
        UInt8.toNat_ofNat_of_lt' (by omega : 16 * h + l < 256)
      have hdiv : (16 * h + l) / 16 = h := by omega
      have hmod : (16 * h + l) % 16 = l := by omega
      refine ⟨UInt8.ofNat (16 * h + l) :: bytes, ?_, ?_, ?_⟩
      · rw [utf8, List.flatMap_cons, List.flatMap_cons, hencode, hencode', ← utf8]
        simp only [List.cons_append, List.nil_append, decodePairs, hvalue, hvalue', hdecode,
          Except.map]
      · simp only [List.length_cons, hlength]
        omega
      · rw [List.flatMap_cons, hexOfByte, hbyte, hdiv, hmod, hsmall, hsmall', hwritten]
        rfl

/-- Decoding stops at the first byte that is no digit, and tells where it stands. -/
theorem decodePairs_invalid {byte : UInt8} (hbyte : byte ∉ hexBytes) (later : List UInt8) :
    ∀ (front : List UInt8) (index : Nat), (∀ digit ∈ front, digit ∈ hexBytes) →
      (front ++ byte :: later).length % 2 = 0 →
      decodePairs index (front ++ byte :: later) =
        .error (.invalidDigit byte (index + front.length))
  | [], index, _, heven => by
      have hnone := (digitValue?_eq_none_iff byte).mpr hbyte
      cases later with
      | nil => exact absurd heven Nat.one_ne_zero
      | cons low later =>
          rw [List.nil_append, decodePairs]
          simp only [hnone, List.length_nil, Nat.add_zero]
  | [high], index, hfront, _ => by
      have hnone := (digitValue?_eq_none_iff byte).mpr hbyte
      obtain ⟨h, hvalue⟩ := exists_digitValue? (hfront high (List.mem_singleton_self high))
      rw [List.singleton_append, decodePairs]
      simp only [hvalue, hnone, List.length_singleton]
  | high :: low :: front, index, hfront, heven => by
      obtain ⟨hhigh, hbehind⟩ := List.forall_mem_cons.mp hfront
      obtain ⟨hlow, hlater⟩ := List.forall_mem_cons.mp hbehind
      obtain ⟨h, hvalue⟩ := exists_digitValue? hhigh
      obtain ⟨l, hvalue'⟩ := exists_digitValue? hlow
      have heven' : (front ++ byte :: later).length % 2 = 0 := by
        simp only [List.cons_append, List.length_cons] at heven
        omega
      have hplace : index + 2 + front.length = index + (high :: low :: front).length := by
        simp only [List.length_cons]
        omega
      rw [List.cons_append, List.cons_append, decodePairs]
      simp only [hvalue, hvalue', decodePairs_invalid hbyte later front (index + 2) hlater heven',
        Except.map, hplace]

/-! ## Reading -/

section Reading

variable {text : String} {digits : List Char}

theorem parse_of_trim (htrim : Text.trim text.toList = '0' :: 'x' :: digits) :
    parse text = match decodeHex (utf8 digits) with
      | .error error => .error error
      | .ok bytes =>
        if h : bytes.length = 8 then .ok ⟨⟨bytes.toArray, by simpa using h⟩⟩
        else .error (.invalidLength bytes.length) := by
  have hstrip : Text.stripStart? ['0', 'x'] (Text.trim text.toList) = some digits :=
    Text.stripStart?_eq_some_iff.mpr htrim
  rw [parse, hstrip]
  simp only [toUTF8_ofList]
  rfl

theorem parse_of_not_start (h : ¬['0', 'x'] <+: Text.trim text.toList) :
    parse text = .error (.missingStart text) := by
  cases hstrip : Text.stripStart? ['0', 'x'] (Text.trim text.toList) with
  | none => rw [parse, hstrip]
  | some digits => exact absurd ⟨digits, (Text.stripStart?_eq_some_iff.mp hstrip).symm⟩ h

theorem parse_of_error (htrim : Text.trim text.toList = '0' :: 'x' :: digits)
    {error : SignatureError} (h : decodeHex (utf8 digits) = .error error) :
    parse text = .error error := by
  rw [parse_of_trim htrim, h]

/-- An even number of digits is decoded, and makes a signature if there are sixteen. -/
theorem decodeHex_hexDigits (hdigits : ∀ c ∈ digits, c ∈ hexDigits)
    (heven : digits.length % 2 = 0) :
    ∃ bytes, decodeHex (utf8 digits) = .ok bytes ∧ digits.length = 2 * bytes.length ∧
      bytes.flatMap hexOfByte = digits.map Char.toLower := by
  have hnot : ¬(utf8 digits).length % 2 = 1 := by
    rw [length_utf8 hdigits]
    omega
  rw [decodeHex, if_neg hnot]
  exact decodePairs_hexDigits 0 digits hdigits heven

theorem parse_of_wrong_size (htrim : Text.trim text.toList = '0' :: 'x' :: digits)
    (hdigits : ∀ c ∈ digits, c ∈ hexDigits) {size : Nat} (hsize : digits.length = 2 * size)
    (hne : size ≠ 8) : parse text = .error (.invalidLength size) := by
  obtain ⟨bytes, hdecode, hlength, -⟩ := decodeHex_hexDigits hdigits (by omega)
  obtain rfl : size = bytes.length := by omega
  rw [parse_of_trim htrim, hdecode]
  exact dif_neg hne

/-- Sixteen digits are read, as the signature that is written with the same digits made small. -/
theorem exists_parse_eq_ok (htrim : Text.trim text.toList = '0' :: 'x' :: digits)
    (hdigits : ∀ c ∈ digits, c ∈ hexDigits) (hlength : digits.length = 16) :
    ∃ signature, parse text = .ok signature ∧
      signature.text = asciiLower (String.ofList (Text.trim text.toList)) := by
  obtain ⟨bytes, hdecode, hbytes, hwritten⟩ := decodeHex_hexDigits hdigits (by omega)
  have hsize : bytes.length = 8 := by omega
  refine ⟨⟨⟨bytes.toArray, by simpa using hsize⟩⟩, ?_, ?_⟩
  · rw [parse_of_trim htrim, hdecode]
    exact dif_pos hsize
  · rw [asciiLower, String.toList_ofList, htrim]
    exact congrArg (fun small => String.ofList ('0' :: 'x' :: small)) hwritten

theorem text_injective {signature other : Signature} (h : signature.text = other.text) :
    signature = other := by
  have hread := parse_text signature
  rw [h, parse_text] at hread
  exact (Except.ok.inj hread).symm

theorem ReadsAs.parse_eq {outcome : Except SignatureError Signature}
    (h : ReadsAs text outcome) : parse text = outcome := by
  cases h with
  | missingStart hstart => exact parse_of_not_start hstart
  | oddLength htrim hodd =>
      refine parse_of_error htrim ?_
      rw [decodeHex, if_pos hodd]
  | @invalidDigit digits front later byte htrim heven hcut hfront hbyte =>
      refine parse_of_error htrim ?_
      have hdecode := decodePairs_invalid hbyte later front 0 hfront (hcut ▸ heven)
      rw [decodeHex, if_neg (by omega), hcut, hdecode, Nat.zero_add]
  | invalidLength htrim hdigits hsize hne => exact parse_of_wrong_size htrim hdigits hsize hne
  | signature htrim hdigits hlength hwritten =>
      obtain ⟨found, hparse, hfound⟩ := exists_parse_eq_ok htrim hdigits hlength
      rw [hparse, text_injective (hfound.trans hwritten.symm)]

/-- Every text has one of the forms. -/
theorem exists_readsAs (text : String) : ∃ outcome, ReadsAs text outcome := by
  by_cases hstart : ['0', 'x'] <+: Text.trim text.toList
  · obtain ⟨digits, hdigits⟩ := hstart
    have htrim : Text.trim text.toList = '0' :: 'x' :: digits := hdigits.symm
    rcases Nat.mod_two_eq_zero_or_one (utf8 digits).length with heven | hodd
    · rcases forall_mem_hexBytes_or (utf8 digits) with
        hall | ⟨front, byte, later, hcut, hfront, hbyte⟩
      · have hdigits : ∀ c ∈ digits, c ∈ hexDigits := fun c hc =>
          mem_hexDigits_of_bytes fun byte hmem => hall byte (List.mem_flatMap.mpr ⟨c, hc, hmem⟩)
        rw [length_utf8 hdigits] at heven
        by_cases hsize : digits.length = 16
        · obtain ⟨signature, -, hwritten⟩ := exists_parse_eq_ok htrim hdigits hsize
          exact ⟨_, .signature htrim hdigits hsize hwritten⟩
        · have hhalf : digits.length = 2 * (digits.length / 2) := by omega
          exact ⟨_, .invalidLength htrim hdigits hhalf (by omega)⟩
      · exact ⟨_, .invalidDigit htrim heven hcut hfront hbyte⟩
    · exact ⟨_, .oddLength htrim hodd⟩
  · exact ⟨_, .missingStart hstart⟩

theorem parse_eq_iff {outcome : Except SignatureError Signature} :
    parse text = outcome ↔ ReadsAs text outcome := by
  constructor
  · rintro rfl
    obtain ⟨outcome, hreads⟩ := exists_readsAs text
    rw [hreads.parse_eq]
    exact hreads
  · exact ReadsAs.parse_eq

/-- Blanks around a written signature do not matter. -/
theorem parse_text_between (signature : Signature) {left right : List Char}
    (hleft : ∀ c ∈ left, isBlank c = true) (hright : ∀ c ∈ right, isBlank c = true) :
    parse (String.ofList (left ++ signature.text.toList ++ right)) = .ok signature := by
  have htrim : Text.trim (String.ofList (left ++ signature.text.toList ++ right)).toList =
      Text.trim signature.text.toList := by
    rw [String.toList_ofList, Text.trim_blanks_append _ hleft hright]
  have hread := parse_eq_iff.mp (parse_text signature)
  cases hread with
  | signature htrim' hdigits hlength hwritten =>
      rw [← htrim] at htrim' hwritten
      exact parse_eq_iff.mpr (.signature htrim' hdigits hlength hwritten)

end Reading

/--
Texts are decoded exactly.  A written signature is read as itself, with any blanks around
it.  A text is read as a signature just if, without the blanks around it, it is `0x` and
sixteen digits of either case, and then the signature is written as that text with its
capitals made small.  Every other text is refused for the reason that its form gives.
-/
theorem parse_exact :
    (∀ (signature : Signature) (left right : List Char), (∀ c ∈ left, isBlank c = true) →
      (∀ c ∈ right, isBlank c = true) →
        parse (String.ofList (left ++ signature.text.toList ++ right)) = .ok signature) ∧
    (∀ text, (∃ signature, parse text = .ok signature) ↔
      ∃ digits, Text.trim text.toList = '0' :: 'x' :: digits ∧ digits.length = 16 ∧
        ∀ c ∈ digits, c ∈ hexDigits) ∧
    ∀ text outcome, parse text = outcome ↔ ReadsAs text outcome := by
  refine ⟨fun signature _ _ => parse_text_between signature, fun text => ?_,
    fun _ _ => parse_eq_iff⟩
  constructor
  · rintro ⟨signature, hread⟩
    cases parse_eq_iff.mp hread with
    | signature htrim hdigits hlength _ => exact ⟨_, htrim, hlength, hdigits⟩
  · rintro ⟨digits, htrim, hlength, hdigits⟩
    obtain ⟨signature, hread, -⟩ := exists_parse_eq_ok htrim hdigits hlength
    exact ⟨signature, hread⟩

/-- A no-break space is a blank, capitals are digits, and an accented letter is two bytes. -/
theorem parse_exact_surrounded :
    (∀ c ∈ ['\u00a0', '\t'], isBlank c = true) ∧ (∀ c ∈ ['\n'], isBlank c = true) ∧
      parse (String.ofList (['\u00a0', '\t'] ++
        (Signature.mk #v[1, 35, 69, 103, 137, 171, 205, 239]).text.toList ++ ['\n'])) =
          .ok ⟨#v[1, 35, 69, 103, 137, 171, 205, 239]⟩ ∧
      (∃ signature, parse "0xABCDEFabcdef0123" = .ok signature) ∧
      parse "0xaé0" = .error (.invalidDigit 195 1) := by
  obtain ⟨hwritten, hread, hreads⟩ := parse_exact
  have hleft : ∀ c ∈ ['\u00a0', '\t'], isBlank c = true := List.all_eq_true.mp (by decide)
  have hright : ∀ c ∈ ['\n'], isBlank c = true := List.all_eq_true.mp (by decide)
  refine ⟨hleft, hright, hwritten _ _ _ hleft hright, ?_, ?_⟩
  · exact (hread _).mpr ⟨"ABCDEFabcdef0123".toList, by decide, by decide,
      List.all_iff_forall_prop.mp (by decide)⟩
  · have htrim : Text.trim "0xaé0".toList = '0' :: 'x' :: ['a', 'é', '0'] := by decide
    have hcut : utf8 ['a', 'é', '0'] = [97] ++ 195 :: [169, 48] := by decide
    exact (hreads _ _).mpr (.invalidDigit htrim (by decide) hcut
      (List.all_iff_forall_prop.mp (by decide)) (by decide))

end Signature

end LinearProgram
