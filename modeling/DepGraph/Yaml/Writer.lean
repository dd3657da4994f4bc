import DepGraph.Data.Basic
import DepGraph.Yaml.Chars
import DepGraph.Yaml.Meaning
import DepGraph.Yaml.Scalar

/-!
# Writing YAML

Block style, two blanks deeper for each mapping; the items of a list stand at the column of its key.
A text is written in the plainest style that keeps it the same text: `styleOf` chooses it.
-/

namespace DepGraph.Yaml

/-- The characters that are not written as they are, line feeds aside. -/
def isSpecial (c : Char) : Bool :=
  let n := c.toNat
  (n < 0x20 && c != '\n') || (0x7F ≤ n && n ≤ 0x9F) || n = 0xFEFF || n = 0xFFFE || n = 0xFFFF

/-- The characters that no plain scalar starts with. -/
def isLeadingIndicator (c : Char) : Bool :=
  isFlowIndicator c || "#&*!|>'\"%@\x60".toList.contains c

/-- Whether blank space or the end follows. -/
def spaceAhead : List Char → Bool
  | [] => true
  | c :: _ => isBlank c || isBreak c || c = '\x00'

/-- Whether an indicator of a value or a comment occurs after the first character. -/
def hasInnerIndicator (afterSpace : Bool) : List Char → Bool
  | [] => false
  | c :: rest =>
    (c = ':' && spaceAhead rest) || (c = '#' && afterSpace)
      || hasInnerIndicator (spaceAhead [c]) rest

/-- Whether the characters of a text look like something else than a plain scalar. -/
def hasIndicator (cs : List Char) : Bool :=
  ("---".toList).isPrefixOf cs || ("...".toList).isPrefixOf cs ||
    match cs with
    | [] => false
    | c :: rest =>
      isLeadingIndicator c || ((c = '?' || c = ':' || c = '-') && spaceAhead rest)
        || hasInnerIndicator (spaceAhead [c]) rest

/-- Whether a blank stands right before a break. -/
def hasSpaceBreak : List Char → Bool
  | a :: b :: rest => (a = ' ' && isBreak b) || hasSpaceBreak (b :: rest)
  | _ => false

/-- Whether a blank stands right after a break. -/
def hasBreakSpace : List Char → Bool
  | a :: b :: rest => (isBreak a && b = ' ') || hasBreakSpace (b :: rest)
  | _ => false

/-- Whether a text can be written without quotes on one line. -/
def allowsPlain (cs : List Char) : Bool :=
  cs.head? ≠ some ' ' && cs.getLast? ≠ some ' ' && !cs.any isBreak && !cs.any isSpecial
    && !hasIndicator cs

/-- Whether a text can be written in single quotes. -/
def allowsSingle (cs : List Char) : Bool :=
  !hasBreakSpace cs && !hasSpaceBreak cs && !cs.any isSpecial

/-- Whether a text can be written as a literal block. -/
def allowsLiteral (cs : List Char) : Bool :=
  !cs.isEmpty && cs.getLast? ≠ some ' ' && !hasSpaceBreak cs && !cs.any isSpecial

/-- The style of a text. -/
def styleOf (s : String) : Style :=
  let cs := s.toList
  if cs.contains '\n' then if allowsLiteral cs then .literal else .double
  else if meansOther s = false ∧ allowsPlain cs then .plain
  else if allowsSingle cs then .single
  else .double

/-- The uppercase hexadecimal digits of a number, padded to a width. -/
def hexDigits (width n : Nat) : List Char :=
  ((Nat.toDigits 16 n).map Char.toUpper).leftpad width '0'

/-- A character in double quotes. -/
def escapeDouble (c : Char) : List Char :=
  if c = '"' ∨ c = '\\' ∨ isBreak c ∨ isSpecial c then
    match escapes.find? (·.2 = c) with
    | some (letter, _) => ['\\', letter]
    | none =>
      if c.toNat ≤ 0xFF then '\\' :: 'x' :: hexDigits 2 c.toNat
      else if c.toNat ≤ 0xFFFF then '\\' :: 'u' :: hexDigits 4 c.toNat
      else '\\' :: 'U' :: hexDigits 8 c.toNat
  else [c]

def pad (indent : Nat) : List Char := List.replicate indent ' '

/-- The characters of lines, each line that is not empty indented. -/
def indentLines (indent : Nat) (lineStart : Bool) : List Char → List Char
  | [] => []
  | c :: rest =>
    if isBreak c then c :: indentLines indent true rest
    else if lineStart then pad indent ++ c :: indentLines indent false rest
    else c :: indentLines indent false rest

/-- A text in single quotes; what follows a break, the closing quote too, is indented. -/
def singleQuoted (indent : Nat) (cs : List Char) : List Char :=
  let doubled := cs.flatMap fun c => if c = '\'' then ['\'', '\''] else [c]
  '\'' :: indentLines indent false (doubled ++ ['\''])

/-- The mark for what becomes of the breaks at the end of a literal block. -/
def chompingMark (cs : List Char) : List Char :=
  match cs.reverse with
  | [] => ['-']
  | last :: before =>
    if isBreak last = false then ['-']
    else if before.head?.all isBreak then ['+']
    else []

/-- The mark that tells the indentation of a literal block, where its first line does not. -/
def indentMark : List Char → List Char
  | c :: _ => if c = ' ' ∨ isBreak c then ['2'] else []
  | [] => []

/-- A line feed, unless the text before it ends with a break. -/
def lineEnd (cs : List Char) : List Char :=
  if cs.getLast?.any isBreak then [] else ['\n']

/-- A text and the end of its line. Lines after the first are indented. -/
def writeText (indent : Nat) (s : String) : List Char :=
  let cs := s.toList
  match styleOf s with
  | .plain => cs ++ ['\n']
  | .single => singleQuoted indent cs ++ ['\n']
  | .literal | .folded =>
    '|' :: indentMark cs ++ chompingMark cs ++ '\n' :: indentLines indent true cs ++ lineEnd cs
  | .double => '"' :: cs.flatMap escapeDouble ++ ['"', '\n']

mutual

/-- What follows the colon of a key whose mapping is at a column. -/
def writeValue (column : Nat) : Data → List Char
  | .null => " null\n".toList
  | .flag true => " true\n".toList
  | .flag false => " false\n".toList
  | .count n => ' ' :: Nat.toDigits 10 n ++ ['\n']
  | .text s => ' ' :: writeText (column + 2) s
  | .list [] => " []\n".toList
  | .list (first :: rest) => '\n' :: writeItems column (first :: rest)
  | .record [] => " \x7b\x7d\n".toList
  | .record (first :: rest) => '\n' :: pad (column + 2) ++ writeFields (column + 2) (first :: rest)

/-- The items of a list at a column, each on lines of its own. -/
def writeItems (column : Nat) : List Data → List Char
  | [] => []
  | item :: rest => pad column ++ '-' :: writeItem column item ++ writeItems column rest

/-- What follows the dash of an item at a column. -/
def writeItem (column : Nat) : Data → List Char
  | .record (first :: rest) => ' ' :: writeFields (column + 2) (first :: rest)
  | .list (first :: rest) =>
    " -".toList ++ writeItem (column + 2) first ++ writeItems (column + 2) rest
  | .null => " null\n".toList
  | .flag true => " true\n".toList
  | .flag false => " false\n".toList
  | .count n => ' ' :: Nat.toDigits 10 n ++ ['\n']
  | .text s => ' ' :: writeText (column + 2) s
  | .list [] => " []\n".toList
  | .record [] => " \x7b\x7d\n".toList

/-- The fields of a record at a column, the first one after what stands on its line already. -/
def writeFields (column : Nat) : List (String × Data) → List Char
  | [] => []
  | [(name, value)] => name.toList ++ ':' :: writeValue column value
  | (name, value) :: next :: rest =>
    name.toList ++ ':' :: writeValue column value ++ pad column ++ writeFields column (next :: rest)

end

/-- A record as a document. -/
def write : Data → String
  | .record fields => String.ofList (writeFields 0 fields)
  | other => String.ofList (writeItem 0 other).tail

end DepGraph.Yaml
