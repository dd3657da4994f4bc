import DepGraph.Json.Tree
import DepGraph.Text.Digit

/-!
# Taking JSON text apart

`Tree.read` gives the tree of the value that a text starts with, and what follows it; nothing follows a
value that could not be read to its end.
-/

namespace DepGraph.Json

/-- Blank space between tokens. -/
def isBlank (g : Glyph) : Bool :=
  g = some ' ' || g = some '\n' || g = some '\r' || g = some '\t'

def skipBlanks (input : List Glyph) : List Glyph := input.dropWhile isBlank

/-- The value of a hexadecimal digit. -/
def hexValue? (g : Glyph) : Option Nat := g.bind (Text.digit? 16)

/-- The number that four hexadecimal digits write. -/
def hexQuad? (a b c d : Glyph) : Option Nat := do
  return (((← hexValue? a) * 16 + (← hexValue? b)) * 16 + (← hexValue? c)) * 16 + (← hexValue? d)

/-- The character that a letter after a backslash stands for. -/
def simpleEscape? (c : Char) : Option Char :=
  if c = '"' ∨ c = '\\' ∨ c = '/' then some c
  else if c = 'b' then some '\x08'
  else if c = 'f' then some '\x0c'
  else if c = 'n' then some '\n'
  else if c = 'r' then some '\r'
  else if c = 't' then some '\t'
  else none

namespace Spelling

/-- A string that cannot be read on. -/
def halt (stop : Stop) : Spelling × Option (List Glyph) := (⟨[], some stop⟩, none)

/-- A piece before the rest of a string. -/
def push (piece : Piece) (rest : Spelling × Option (List Glyph)) :
    Spelling × Option (List Glyph) :=
  (⟨piece :: rest.1.pieces, rest.1.stop⟩, rest.2)

/-- Reads a string from behind its opening quote. A `\u` wants four bytes before anything else is
asked of them. -/
def read : List Glyph → Spelling × Option (List Glyph)
  | [] => halt .cutShort
  | some '"' :: rest => (⟨[], none⟩, some rest)
  | some '\\' :: some 'u' :: a :: b :: c :: d :: rest =>
    match hexQuad? a b c d with
    | some n => push (.unit n) (read rest)
    | none => halt .malformed
  | some '\\' :: some 'u' :: rest =>
    if rest.foldl (· + ·.width) 0 < 4 then halt .cutShort else halt .malformed
  | [some '\\'] => halt .cutShort
  | some '\\' :: some c :: rest =>
    match simpleEscape? c with
    | some e => push (.glyph (some e)) (read rest)
    | none => halt .malformed
  | some '\\' :: none :: _ => halt .malformed
  | some c :: rest =>
    if c.toNat < 0x20 then halt .malformed else push (.glyph (some c)) (read rest)
  | none :: rest => push (.glyph none) (read rest)

end Spelling

/-- Whether a glyph is a decimal digit. -/
def isDigit : Glyph → Bool
  | some c => '0' ≤ c && c ≤ '9'
  | none => false

/-- The digits that a text starts with, and the rest. -/
def digits (input : List Glyph) : List Char × List Glyph :=
  ((input.takeWhile isDigit).reduceOption, input.dropWhile isDigit)

/-- The stop where digits are missing. -/
def missingDigits (input : List Glyph) : Stop :=
  if input.isEmpty then .cutShort else .malformed

/-- Reads the exponent of a number, if it has one. -/
def readExponent (negative : Bool) (whole fraction : List Char) (input : List Glyph) :
    Tree × Option (List Glyph) :=
  let finish := fun (minus : Bool) (input : List Glyph) =>
    let (power, rest) := digits input
    if power.isEmpty then (Tree.brokenNumber (missingDigits input), none)
    else (.number ⟨negative, whole, fraction, some (minus, power)⟩, some rest)
  match input with
  | some 'e' :: rest | some 'E' :: rest =>
    match rest with
    | some '+' :: rest => finish false rest
    | some '-' :: rest => finish true rest
    | rest => finish false rest
  | rest => (.number ⟨negative, whole, fraction, none⟩, some rest)

/-- Reads a number from behind its sign. -/
def readNumber (negative : Bool) (input : List Glyph) : Tree × Option (List Glyph) :=
  let (whole, rest) := digits input
  if whole.isEmpty then (.brokenNumber (missingDigits input), none)
  else if whole.head? = some '0' ∧ whole.length > 1 then (.brokenNumber .malformed, none)
  else
    match rest with
    | some '.' :: rest =>
      let (fraction, after) := digits rest
      if fraction.isEmpty then (.brokenNumber (missingDigits rest), none)
      else readExponent negative whole fraction after
    | rest => readExponent negative whole [] rest

/-- Reads the rest of a word. -/
def readWord (tree : Tree) : List Char → List Glyph → Tree × Option (List Glyph)
  | [], rest => (tree, some rest)
  | _ :: _, [] => (.brokenWord .cutShort, none)
  | c :: word, g :: rest =>
    if g = some c then readWord tree word rest else (.brokenWord .malformed, none)

mutual

/-- Reads the value that a text starts with. Every call uses up some of the fuel, and no more calls
are nested than the text has glyphs. -/
def readValue : (fuel : Nat) → List Glyph → Tree × Option (List Glyph)
  | 0, _ => (.nothing .malformed, none)
  | fuel + 1, input =>
    match skipBlanks input with
    | [] => (.nothing .cutShort, none)
    | some 'n' :: rest => readWord .null ['u', 'l', 'l'] rest
    | some 't' :: rest => readWord (.bool true) ['r', 'u', 'e'] rest
    | some 'f' :: rest => readWord (.bool false) ['a', 'l', 's', 'e'] rest
    | some '-' :: rest => readNumber true rest
    | some '"' :: rest =>
      let (spelling, after) := Spelling.read rest
      (.text spelling, after)
    | some '[' :: rest =>
      match skipBlanks rest with
      | some ']' :: rest => (.array .closed, some rest)
      | rest =>
        let (items, after) := readItems fuel rest
        (.array items, after)
    | some '\x7b' :: rest =>
      match skipBlanks rest with
      | [] => (.object (.stopped .cutShort), none)
      | some '\x7d' :: rest => (.object .closed, some rest)
      | rest =>
        let (members, after) := readMembers fuel rest
        (.object members, after)
    | g :: rest =>
      if isDigit g then readNumber false (g :: rest) else (.nothing .malformed, none)

/-- Reads the items of an array from where one has to stand. -/
def readItems : (fuel : Nat) → List Glyph → Items × Option (List Glyph)
  | 0, _ => (.stopped .malformed, none)
  | fuel + 1, input =>
    match readValue fuel input with
    | (head, none) => (.item head (.stopped .malformed), none)
    | (head, some rest) =>
      match skipBlanks rest with
      | [] => (.item head (.stopped .cutShort), none)
      | some ']' :: rest => (.item head .closed, some rest)
      | some ',' :: rest =>
        let (tail, after) := readItems fuel rest
        (.item head tail, after)
      | _ => (.item head (.stopped .malformed), none)

/-- Reads the members of an object from where a name has to stand. -/
def readMembers : (fuel : Nat) → List Glyph → Members × Option (List Glyph)
  | 0, _ => (.stopped .malformed, none)
  | fuel + 1, input =>
    let halt := fun (name value : Tree) => (Members.member name value (.stopped .malformed), none)
    match readValue fuel input with
    | (name, none) => halt name (.nothing .malformed)
    | (.text spelling, some rest) =>
      match skipBlanks rest with
      | some ':' :: rest =>
        match readValue fuel rest with
        | (value, none) => halt (.text spelling) value
        | (value, some rest) =>
          match skipBlanks rest with
          | [] => (.member (.text spelling) value (.stopped .cutShort), none)
          | some '\x7d' :: rest => (.member (.text spelling) value .closed, some rest)
          | some ',' :: rest =>
            let (tail, after) := readMembers fuel rest
            (.member (.text spelling) value tail, after)
          | _ => halt (.text spelling) value
      | [] => halt (.text spelling) (.nothing .cutShort)
      | _ => halt (.text spelling) (.nothing .malformed)
    | (name, some _) => halt name (.nothing .malformed)

end

/-- The tree of the value that a text starts with, and what follows it. -/
def Tree.read (input : List Glyph) : Tree × Option (List Glyph) :=
  readValue (2 * input.length + 2) input

end DepGraph.Json
