/-!
# Bytes as text

`glyphs` splits bytes into characters and keeps a mark for every byte that belongs to none, so that
a reader can go on past bytes it does not have to understand. `firstInvalid` tells where bytes stop
being UTF-8.
-/

namespace DepGraph

/-- A character, or `none` for a byte that belongs to no character. -/
abbrev Glyph := Option Char

/-- The number of bytes a glyph takes. -/
def Glyph.width : Glyph → Nat
  | some c => c.utf8Size
  | none => 1

/-- The glyphs of `bytes` from position `i` on. -/
def Text.glyphsFrom (bytes : ByteArray) (i : Nat) : List Glyph :=
  if i < bytes.size then
    match bytes.utf8DecodeChar? i with
    | some c => some c :: Text.glyphsFrom bytes (i + c.utf8Size)
    | none => none :: Text.glyphsFrom bytes (i + 1)
  else []
termination_by bytes.size - i
decreasing_by
  · have := c.utf8Size_pos
    omega
  · omega

/-- The glyphs of some bytes: the characters alone when the bytes are valid text. -/
def Text.glyphs (bytes : ByteArray) : List Glyph :=
  match String.fromUTF8? bytes with
  | some text => text.toList.map some
  | none => Text.glyphsFrom bytes 0

/-- Bytes that are not UTF-8: where the first bad sequence starts, and how long it is when it is not
merely cut short by the end. -/
structure InvalidUtf8 where
  offset : Nat
  length : Option Nat
  deriving DecidableEq, Repr

def InvalidUtf8.message (e : InvalidUtf8) : String :=
  match e.length with
  | some n => s!"invalid utf-8 sequence of {n} bytes from index {e.offset}"
  | none => s!"incomplete utf-8 byte sequence from index {e.offset}"

/-- How many bytes follow the first byte of a character, and the range of the second one. -/
def Text.follow? (first : Nat) : Option (Nat × Nat × Nat) :=
  if 0xC2 ≤ first ∧ first ≤ 0xDF then some (1, 0x80, 0xBF)
  else if first = 0xE0 then some (2, 0xA0, 0xBF)
  else if first = 0xED then some (2, 0x80, 0x9F)
  else if 0xE1 ≤ first ∧ first ≤ 0xEF then some (2, 0x80, 0xBF)
  else if first = 0xF0 then some (3, 0x90, 0xBF)
  else if 0xF1 ≤ first ∧ first ≤ 0xF3 then some (3, 0x80, 0xBF)
  else if first = 0xF4 then some (3, 0x80, 0x8F)
  else none

/-- The length of the bad sequence that `rest` begins with: the bytes before the first one that
cannot continue the character, or `none` when the bytes end first. -/
def Text.badLength (rest : List UInt8) : Option Nat :=
  match rest with
  | [] => none
  | first :: rest =>
    match Text.follow? first.toNat with
    | none => some 1
    | some (more, low, high) =>
      let fits := fun (i : Nat) (b : UInt8) =>
        if i = 0 then low ≤ b.toNat && b.toNat ≤ high else 0x80 ≤ b.toNat && b.toNat ≤ 0xBF
      let good := ((rest.take more).zipIdx.takeWhile fun (b, i) => fits i b).length
      if good < rest.length then some (good + 1) else none

/-- The place of the first byte at or after `i` that belongs to no character. -/
def Text.firstInvalidFrom (bytes : ByteArray) (i : Nat) : Option Nat :=
  if i < bytes.size then
    match bytes.utf8DecodeChar? i with
    | some c => Text.firstInvalidFrom bytes (i + c.utf8Size)
    | none => some i
  else none
termination_by bytes.size - i
decreasing_by
  have := c.utf8Size_pos
  omega

/-- The first bad sequence, if the bytes are not UTF-8. -/
def Text.firstInvalid (bytes : ByteArray) : Option InvalidUtf8 :=
  (Text.firstInvalidFrom bytes 0).map fun i =>
    ⟨i, Text.badLength (bytes.data.toList.drop i)⟩

/-- The text that some bytes hold, or the place where they are not UTF-8. -/
def Text.ofBytes (bytes : ByteArray) : Except InvalidUtf8 String :=
  match String.fromUTF8? bytes with
  | some text => .ok text
  | none => .error ((Text.firstInvalid bytes).getD ⟨0, none⟩)

end DepGraph
