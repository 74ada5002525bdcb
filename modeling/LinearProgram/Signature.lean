import LinearProgram.Digest.Blake3
import LinearProgram.Text.Blank
import LinearProgram.Text.Pieces
import LinearProgram.Text.Quoted

/-!
# Signatures

A signature is the first eight bytes of the BLAKE3 hash of a text, written as `0x` and
sixteen small hexadecimal digits.  Reading takes digits of either case.
-/

namespace LinearProgram

structure Signature where
  bytes : Vector UInt8 8
deriving DecidableEq

inductive SignatureError where
  | missingStart (text : String)
  | oddLength
  | invalidDigit (byte : UInt8) (index : Nat)
  | invalidLength (size : Nat)
deriving DecidableEq

namespace SignatureError

def message : SignatureError → String
  | missingStart text => "Signature must start with `0x`: " ++ text
  | oddLength => "Signature is not hex: Odd number of digits"
  | invalidDigit byte index =>
    "Signature is not hex: Invalid character " ++
      String.ofList (Text.shown '\'' [Char.ofNat byte.toNat]) ++ " at position " ++ toString index
  | invalidLength size => "Signature must be 8 bytes, got " ++ toString size

end SignatureError

namespace Signature

/-- The signature of a text. -/
def ofText (body : String) : Signature :=
  let digest := Blake3.hash body.toUTF8.data.toList
  ⟨Vector.ofFn fun i : Fin 8 => digest[i.val]⟩

/-- The small hexadecimal digit of a number below sixteen. -/
def hexDigit (n : Nat) : Char :=
  if n < 10 then Char.ofNat ('0'.toNat + n) else Char.ofNat ('a'.toNat + (n - 10))

def hexOfByte (byte : UInt8) : List Char :=
  [hexDigit (byte.toNat / 16), hexDigit (byte.toNat % 16)]

/-- The written form of a signature. -/
def chars (signature : Signature) : List Char :=
  '0' :: 'x' :: signature.bytes.toList.flatMap hexOfByte

def text (signature : Signature) : String :=
  String.ofList signature.chars

/-- The value of a byte that is a hexadecimal digit of either case in ASCII. -/
def digitValue? (byte : UInt8) : Option Nat :=
  if '0'.toNat ≤ byte.toNat ∧ byte.toNat ≤ '9'.toNat then some (byte.toNat - '0'.toNat)
  else if 'a'.toNat ≤ byte.toNat ∧ byte.toNat ≤ 'f'.toNat then
    some (byte.toNat - 'a'.toNat + 10)
  else if 'A'.toNat ≤ byte.toNat ∧ byte.toNat ≤ 'F'.toNat then
    some (byte.toNat - 'A'.toNat + 10)
  else none

/-- The bytes that pairs of digits denote, the first digit having the given number. -/
def decodePairs (index : Nat) : List UInt8 → Except SignatureError (List UInt8)
  | high :: low :: digits =>
    match digitValue? high with
    | none => .error (.invalidDigit high index)
    | some h =>
      match digitValue? low with
      | none => .error (.invalidDigit low (index + 1))
      | some l => (decodePairs (index + 2) digits).map (UInt8.ofNat (16 * h + l) :: ·)
  | _ => .ok []

/-- The bytes that an even number of hexadecimal digits denotes. -/
def decodeHex (digits : List UInt8) : Except SignatureError (List UInt8) :=
  if digits.length % 2 = 1 then .error .oddLength else decodePairs 0 digits

/-- The signature that a text denotes, blanks around it aside. -/
def parse (text : String) : Except SignatureError Signature :=
  match Text.stripStart? ['0', 'x'] (Text.trim text.toList) with
  | none => .error (.missingStart text)
  | some digits =>
    match decodeHex (String.ofList digits).toUTF8.data.toList with
    | .error error => .error error
    | .ok bytes =>
      if h : bytes.length = 8 then .ok ⟨⟨bytes.toArray, by simpa using h⟩⟩
      else .error (.invalidLength bytes.length)

end Signature

/-- What stands behind the mark of a signature in some text, if the text begins with it. -/
def signatureMark? (cs : List Char) : Option (List Char) :=
  (Text.stripStart? "Signature:".toList cs).map Text.trim

end LinearProgram
