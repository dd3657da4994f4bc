import DepGraph.Digest.Sha256
import DepGraph.Text.Quoted

/-!
# Fingerprints

A fingerprint is a 16-byte digest of some content, written as 32 lowercase hexadecimal digits. Equal
fingerprints mean "unchanged".

* `Fingerprint.text`: the written form.
* `Fingerprint.parse`: reads 32 hexadecimal digits of either case.
-/

namespace DepGraph

/-- A digest of sixteen bytes. -/
structure Fingerprint where
  bytes : List UInt8
  length_bytes : bytes.length = 16
  deriving DecidableEq

namespace Fingerprint

/-- The fingerprint that is all zero. -/
def zero : Fingerprint := ⟨List.replicate 16 0, by simp⟩

instance : Inhabited Fingerprint := ⟨zero⟩

/-- Sixteen bytes as a fingerprint. -/
def ofBytes? (bytes : List UInt8) : Option Fingerprint :=
  if h : bytes.length = 16 then some ⟨bytes, h⟩ else none

/-- The leading half of the content's SHA-256 digest. -/
def ofContent (content : List UInt8) : Fingerprint :=
  ⟨(Sha256.digest content).take 16, by simp [Sha256.length_digest]⟩

/-- The fingerprint of a text is that of its UTF-8 bytes. -/
def ofText (text : String) : Fingerprint :=
  ofContent text.toUTF8.data.toList

/-- The lowercase hexadecimal digit of a number below sixteen. -/
def hexDigit (n : UInt8) : Char :=
  if n < 10 then Char.ofNat (0x30 + n.toNat) else Char.ofNat (0x57 + n.toNat)

/-- The two digits of a byte. -/
def byteText (b : UInt8) : List Char :=
  [hexDigit (b / 16), hexDigit (b % 16)]

/-- The 32 digits of a fingerprint. -/
def text (f : Fingerprint) : String :=
  String.ofList (f.bytes.flatMap byteText)

/-- The value of a hexadecimal digit of either case, given as a byte. -/
def hexValue? (b : UInt8) : Option UInt8 :=
  if 0x30 ≤ b ∧ b ≤ 0x39 then some (b - 0x30)
  else if 0x61 ≤ b ∧ b ≤ 0x66 then some (b - 0x57)
  else if 0x41 ≤ b ∧ b ≤ 0x46 then some (b - 0x37)
  else none

/-- Why a text is not a fingerprint. -/
inductive ParseError where
  /-- It does not have 32 bytes. -/
  | length (text : String)
  /-- A byte of it is no hexadecimal digit. -/
  | digit (text : String) (byte : UInt8) (position : Nat)
  deriving DecidableEq

def ParseError.message : ParseError → String
  | .length text => s!"fingerprint '{text}' must have 32 hex digits, found {text.utf8ByteSize}"
  | .digit text byte position =>
    let shown := Text.quotedChar (Char.ofNat byte.toNat)
    s!"fingerprint '{text}' is not valid hex: Invalid character {shown} at position {position}"

/-- The value of a digit, or the byte and its position. -/
def digitAt (b : UInt8) (position : Nat) : Except (UInt8 × Nat) UInt8 :=
  match hexValue? b with
  | some v => .ok v
  | none => .error (b, position)

/-- The bytes that pairs of digits stand for, or the first byte that is no digit and its position;
`position` is that of the first digit, and a digit without a partner is left out. -/
def decodePairs (position : Nat) : List UInt8 → Except (UInt8 × Nat) (List UInt8)
  | high :: low :: rest => do
    let h ← digitAt high position
    let l ← digitAt low (position + 1)
    let more ← decodePairs (position + 2) rest
    return (h * 16 + l) :: more
  | _ => .ok []

/-- Reads the written form. -/
def parse (s : String) : Except ParseError Fingerprint :=
  let bytes := s.toUTF8.data.toList
  if bytes.length ≠ 32 then .error (.length s)
  else
    match decodePairs 0 bytes with
    | .error (byte, position) => .error (.digit s byte position)
    | .ok decoded =>
      match ofBytes? decoded with
      | some f => .ok f
      | none => .error (.length s)

instance : Ord Fingerprint := ⟨fun f g => compare f.bytes g.bytes⟩

end Fingerprint

end DepGraph
