import DepGraph.Number.Binary64
import DepGraph.Text.Digit

/-!
# What a plain scalar means

A scalar without quotes may stand for null, for a truth value or for a number. `unsigned?` and `flag?`
are the values that can be read; `meansOther` tells whether a text has to be quoted in order to stay
a text.
-/

namespace DepGraph.Yaml

/-- The ways to write null, other than nothing at all. -/
def isNull (s : String) : Bool :=
  ["~", "null", "Null", "NULL"].contains s

/-- The truth value that a text stands for. -/
def flag? (s : String) : Option Bool :=
  if ["true", "True", "TRUE"].contains s then some true
  else if ["false", "False", "FALSE"].contains s then some false
  else none

/-- A text without the sign that it starts with, if it does. -/
def dropSign (signs : List Char) : List Char → List Char
  | c :: rest => if signs.contains c then rest else c :: rest
  | [] => []

/-- Whether a text, its sign aside, is a zero and more digits: such a text is no number. -/
def hasLeadingZero (s : String) : Bool :=
  match dropSign ['-', '+'] s.toList with
  | '0' :: c :: rest => (c :: rest).all Char.isDigit
  | _ => false

/-- The number of digits after the mark of their base, else of decimal ones. -/
def magnitude? : List Char → Option Nat
  | '0' :: 'x' :: rest => Text.number? 16 rest
  | '0' :: 'o' :: rest => Text.number? 8 rest
  | '0' :: 'b' :: rest => Text.number? 2 rest
  | cs => Text.number? 10 cs

/-- The number that a text stands for, after a plus sign or none. -/
def unsigned? (s : String) : Option Nat :=
  if hasLeadingZero s then none else magnitude? (dropSign ['+'] s.toList)

/-- The number that a text stands for after its minus sign. -/
def negative? (s : String) : Option Nat :=
  match s.toList with
  | '-' :: rest => if hasLeadingZero s then none else magnitude? rest
  | _ => none

/-- Whether a text is an integer of at most 128 bits. -/
def isInteger (s : String) : Bool :=
  (unsigned? s).any (· < 1 <<< 128) || (negative? s).any (· ≤ 1 <<< 127)

/-- Digits with a point and an exponent: their significand and the power of ten that it is
multiplied by. -/
def decimal? (cs : List Char) : Option (Nat × Int) := do
  let (whole, rest) := cs.span Char.isDigit
  let (fraction, rest) :=
    match rest with
    | '.' :: rest => rest.span Char.isDigit
    | _ => ([], rest)
  let significand ← Text.number? 10 (whole ++ fraction)
  let power ←
    match rest with
    | [] => some (0 : Int)
    | e :: rest =>
      if e = 'e' ∨ e = 'E' then
        match rest with
        | '-' :: digits => (Text.number? 10 digits).map fun n => -(n : Int)
        | _ => (Text.number? 10 (dropSign ['+'] rest)).map fun n => (n : Int)
      else none
  return (significand, power - fraction.length)

/-- Whether `significand · 10 ^ power` rounds to a number of double precision. -/
def isFinite (significand : Nat) (power : Int) : Bool :=
  let size : Int := (Nat.toDigits 10 significand).length + power
  if significand = 0 ∨ size < 300 then true
  else if size > 310 then false
  else
    let (up, down) := Binary64.powerOfTen power
    (Binary64.ofRatio false (significand * up) down).isSome

/-- Whether a text is a number with a point or an exponent, or one of the words for infinity and for
what is not a number. -/
def isFloat (s : String) : Bool :=
  let unsigned :=
    match s.toList with
    | '+' :: rest => if rest.head?.any (fun c => c = '+' || c = '-') then [] else rest
    | cs => cs
  [".inf", ".Inf", ".INF"].contains (String.ofList unsigned)
    || ["-.inf", "-.Inf", "-.INF", ".nan", ".NaN", ".NAN"].contains s
    || (decimal? (dropSign ['-'] unsigned)).any fun (significand, power) => isFinite significand power

/-- Whether a text without quotes would not be read as a text. -/
def meansOther (s : String) : Bool :=
  s = "" || isNull s || (flag? s).isSome || isInteger s || isFloat s || hasLeadingZero s

end DepGraph.Yaml
