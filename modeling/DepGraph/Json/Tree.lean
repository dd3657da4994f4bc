import DepGraph.Number.Binary64
import DepGraph.Text.Utf8

/-!
# JSON as far as it could be read

A `Tree` is a JSON text taken apart, from left to right, up to the first place where it is no JSON any
more; that place is in the tree as a `Stop`. Whoever looks at a tree from left to right therefore
meets problems in the order of the text, whether they are problems of form or of content. Strings and
numbers keep their spelling, as a value that nobody looks at need not make sense.
-/

namespace DepGraph.Json

/-- Why a text cannot be read on: something does not belong there, or the text ends. -/
inductive Stop where
  | malformed
  | cutShort
  deriving DecidableEq, Repr

/-- A piece of a string: a glyph, which may have been escaped, or a 16-bit code unit given by number. -/
inductive Piece where
  | glyph (g : Glyph)
  | unit (n : Nat)
  deriving DecidableEq

/-- A string as it is spelled, up to where it could be read. -/
structure Spelling where
  pieces : List Piece
  stop : Option Stop
  deriving DecidableEq

namespace Spelling

/-- The glyphs that pieces stand for: two units of a surrogate pair make one character, and a
surrogate without its partner stands for none. -/
def decode : List Piece → Option Stop → Except Stop (List Glyph)
  | [], none => .ok []
  | [], some stop => .error stop
  | .glyph g :: rest, stop => (decode rest stop).map (g :: ·)
  | .unit n :: rest, stop =>
    if n < 0xD800 ∨ n > 0xDFFF then (decode rest stop).map (some (Char.ofNat n) :: ·)
    else if n ≥ 0xDC00 then .error .malformed
    else
      match rest with
      | [] => .error (stop.getD .malformed)
      | .glyph _ :: _ => .error .malformed
      | .unit m :: rest =>
        if m < 0xDC00 ∨ m > 0xDFFF then .error .malformed
        else
          let c := Char.ofNat (0x10000 + (n - 0xD800) * 0x400 + (m - 0xDC00))
          (decode rest stop).map (some c :: ·)

/-- The text of a string: it has to end, and all of it has to be characters. -/
def text (s : Spelling) : Except Stop String :=
  match decode s.pieces s.stop with
  | .error stop => .error stop
  | .ok glyphs => if glyphs.all Option.isSome then .ok (String.ofList glyphs.reduceOption)
    else .error .malformed

end Spelling

/-- A number as it is spelled: digits before the point, after it, and those of the exponent with
whether it is negative. -/
structure Numeral where
  negative : Bool
  whole : List Char
  fraction : List Char
  exponent : Option (Bool × List Char)
  deriving DecidableEq

/-- What a numeral stands for. -/
inductive Quantity where
  | integer (i : Int)
  | float (x : Binary64)
  deriving DecidableEq

namespace Numeral

def digitValue (c : Char) : Nat := c.toNat - 0x30

/-- Appends digits to a significand as long as it fits 64 bits; the digits that are left. -/
def accumulate (significand : Nat) : List Char → Nat × List Char
  | [] => (significand, [])
  | c :: rest =>
    let next := significand * 10 + digitValue c
    if next < 1 <<< 64 then accumulate next rest else (significand, c :: rest)

/-- Divides by `10 ^ 308` while that leaves something to divide, then by the remaining power. -/
def shrink (x : Binary64) (power : Nat) : (fuel : Nat) → Option Binary64
  | 0 => none
  | fuel + 1 =>
    if power ≤ 308 then x.divNat (Nat.pow 10 power)
    else if x.significand = 0 then some x
    else (x.divNat (Nat.pow 10 308)).bind fun y => shrink y (power - 308) fuel

/-- The float with a significand and a decimal exponent; the significand and the power of ten are
rounded before they are combined. Too large a value is malformed. -/
def float (negative : Bool) (significand : Nat) (exponent : Int) : Except Stop Quantity :=
  let result : Option Binary64 := do
    let x ← Binary64.ofRatio negative significand 1
    if exponent < 0 then shrink x exponent.natAbs (exponent.natAbs + 1)
    else if exponent ≤ 308 then x.mulNat (Nat.pow 10 exponent.toNat)
    else if significand = 0 then some x
    else none
  match result with
  | some x => .ok (.float x)
  | none => .error .malformed

/-- The quantity of a numeral. Integers of 64 bits are exact, all else is a float. -/
def value (n : Numeral) : Except Stop Quantity :=
  let (significand, dropped) := accumulate 0 n.whole
  if n.fraction.isEmpty ∧ n.exponent.isNone ∧ dropped.isEmpty then
    if n.negative then
      if significand = 0 ∨ significand > 1 <<< 63 then float true significand 0
      else .ok (.integer (-(significand : Int)))
    else .ok (.integer significand)
  else
    let (significand, ignored) := accumulate significand n.fraction
    let shift : Int := dropped.length - (n.fraction.length - ignored.length : Nat)
    match n.exponent with
    | none => float n.negative significand shift
    | some (negative, digits) =>
      let power := digits.foldl (fun p c => p * 10 + digitValue c) 0
      if power ≥ 1 <<< 31 then
        if significand ≠ 0 ∧ negative = false then .error .malformed
        else .ok (.float ⟨n.negative, 0, 0⟩)
      else float n.negative significand (if negative then shift - power else shift + power)

end Numeral

mutual

/-- A value as far as it could be read. -/
inductive Tree where
  | null
  | bool (b : Bool)
  | number (n : Numeral)
  | text (s : Spelling)
  | array (items : Items)
  | object (members : Members)
  /-- A word that starts like `null`, `true` or `false` and goes wrong. -/
  | brokenWord (stop : Stop)
  /-- A number that starts well and goes wrong. -/
  | brokenNumber (stop : Stop)
  /-- Nothing that could start a value. -/
  | nothing (stop : Stop)

/-- The items of an array, up to its bracket or to where they could be read. -/
inductive Items where
  | closed
  | stopped (stop : Stop)
  | item (head : Tree) (rest : Items)

/-- The members of an object, up to its brace or to where they could be read. What stands in the place
of a name need not be a string. -/
inductive Members where
  | closed
  | stopped (stop : Stop)
  | member (name value : Tree) (rest : Members)

end

end DepGraph.Json
