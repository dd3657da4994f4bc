import DepGraph.Data.Basic
import DepGraph.Text.Digit

/-!
# Writing JSON

One writer for every layout: a `Layout` says what stands between the elements of a container and after
a colon. `Layout.compact` puts nothing there, `Layout.pretty` a line for each element, two blanks
deeper than its container.
-/

namespace DepGraph.Json

/-- The blank space of a text: before an element at a depth, and after a colon. -/
structure Layout where
  gap : (depth : Nat) → List Char
  afterColon : List Char

namespace Layout

/-- No blank space. -/
def compact : Layout := ⟨fun _ => [], []⟩

/-- A line for each element. -/
def pretty : Layout := ⟨fun depth => '\n' :: List.replicate (2 * depth) ' ', [' ']⟩

end Layout

/-- A character inside a string. -/
def escapeChar (c : Char) : List Char :=
  if c = '"' then ['\\', '"']
  else if c = '\\' then ['\\', '\\']
  else if c = '\x08' then ['\\', 'b']
  else if c = '\x0c' then ['\\', 'f']
  else if c = '\n' then ['\\', 'n']
  else if c = '\r' then ['\\', 'r']
  else if c = '\t' then ['\\', 't']
  else if c.toNat < 0x20 then
    ['\\', 'u', '0', '0', Text.hexDigit (c.toNat / 16), Text.hexDigit (c.toNat % 16)]
  else [c]

/-- A string with its quotes. -/
def quoted (s : String) : List Char :=
  '"' :: s.toList.flatMap escapeChar ++ ['"']

mutual

/-- The text of a value whose container is at a depth. -/
def write (layout : Layout) (depth : Nat) : Data → List Char
  | .null => ['n', 'u', 'l', 'l']
  | .flag true => ['t', 'r', 'u', 'e']
  | .flag false => ['f', 'a', 'l', 's', 'e']
  | .count n => Nat.toDigits 10 n
  | .text s => quoted s
  | .list [] => ['[', ']']
  | .list (first :: rest) =>
    '[' :: layout.gap (depth + 1) ++ write layout (depth + 1) first
      ++ writeItems layout depth rest ++ layout.gap depth ++ [']']
  | .record [] => ['\x7b', '\x7d']
  | .record ((name, value) :: rest) =>
    '\x7b' :: layout.gap (depth + 1) ++ quoted name ++ ':' :: layout.afterColon
      ++ write layout (depth + 1) value ++ writeMembers layout depth rest ++ layout.gap depth
      ++ ['\x7d']

/-- The items after the first one, each after a comma. -/
def writeItems (layout : Layout) (depth : Nat) : List Data → List Char
  | [] => []
  | item :: rest =>
    ',' :: layout.gap (depth + 1) ++ write layout (depth + 1) item ++ writeItems layout depth rest

/-- The members after the first one, each after a comma. -/
def writeMembers (layout : Layout) (depth : Nat) : List (String × Data) → List Char
  | [] => []
  | (name, value) :: rest =>
    ',' :: layout.gap (depth + 1) ++ quoted name ++ ':' :: layout.afterColon
      ++ write layout (depth + 1) value ++ writeMembers layout depth rest

end

/-- The text without blank space. -/
def compact (value : Data) : String := String.ofList (write .compact 0 value)

/-- The text with a line for each element. -/
def pretty (value : Data) : String := String.ofList (write .pretty 0 value)

end DepGraph.Json
