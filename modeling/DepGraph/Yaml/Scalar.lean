import DepGraph.Text.Digit
import DepGraph.Yaml.Chars

/-!
# Scalars in a YAML text

How the text of a scalar is read in each style, from the characters after its first indicator. A
result is the text of the scalar and the characters that follow it; `none` means that the text is not
YAML.

* `readPlain`: up to an indicator, a comment or an outdented line.
* `readSingle`, `readDouble`: up to the closing quote.
* `readBlock`: literal and folded blocks, header included.
-/

namespace DepGraph.Yaml

inductive Style where
  | plain
  | single
  | double
  | literal
  | folded
  deriving DecidableEq, Repr

/-- Blank space between two words of a scalar: blanks of one line, or breaks, of which the first may
have been escaped away. Both are kept in reverse. -/
inductive Gap where
  | blanks (reversed : List Char)
  | breaks (first : Option Char) (more : List Char)
  deriving DecidableEq

namespace Gap

/-- No blank space. -/
def none : Gap := .blanks []

def isNone : Gap → Bool
  | .blanks [] => true
  | _ => false

/-- Whether the next word stands on another line. -/
def isBroken : Gap → Bool
  | .blanks _ => false
  | .breaks _ _ => true

/-- The gap after another blank or break. Blanks next to a break do not count. -/
def extend (gap : Gap) (c : Char) : Gap :=
  match gap with
  | .blanks before => if isBlank c then .blanks (c :: before) else .breaks (some c) []
  | .breaks first more => if isBlank c then .breaks first more else .breaks first (c :: more)

/-- What a gap stands for, in reverse: one line feed alone becomes a blank, and the first of several
is dropped. -/
def folded : Gap → List Char
  | .blanks reversed => reversed
  | .breaks (some '\n') [] => [' ']
  | .breaks (some '\n') more => more
  | .breaks (some c) more => more ++ [c]
  | .breaks Option.none more => more

end Gap

/-! ## Plain -/

/-- Reads a plain scalar: in a flow collection or not, with words of later lines at a column of
`indent` or more. `text` is in reverse. The result also tells whether blank lines were crossed. -/
def readPlain (flow : Bool) (indent : Int) (text : List Char) (gap : Gap) :
    List Placed → Option (List Char × Bool × List Placed)
  | [] => some (text.reverse, gap.isBroken, [])
  | p :: rest =>
    if isBlank p.char ∨ isBreak p.char then
      if p.char = '\t' ∧ gap.isBroken ∧ (p.column : Int) < indent then none
      else readPlain flow indent text (gap.extend p.char) rest
    else if gap.isNone = false ∧ ((flow = false ∧ (p.column : Int) < indent)
        ∨ (documentMark (p :: rest)).isSome ∨ p.char = '#') then
      some (text.reverse, gap.isBroken, p :: rest)
    else if flow ∧ p.char = ':' ∧ rest.head?.any (fun q => isFlowIndicator q.char || q.char = '?') then
      none
    else if (p.char = ':' ∧ blankAhead rest) ∨ (flow ∧ isFlowIndicator p.char) then
      some (text.reverse, gap.isBroken, p :: rest)
    else readPlain flow indent (p.char :: (gap.folded ++ text)) .none rest

/-! ## Quoted -/

/-- Reads a single-quoted scalar up to its quote. -/
def readSingle (text : List Char) (gap : Gap) : List Placed → Option (List Char × List Placed)
  | [] => none
  | p :: rest =>
    if isBlank p.char ∨ isBreak p.char then readSingle text (gap.extend p.char) rest
    else if (documentMark (p :: rest)).isSome then none
    else if p.char ≠ '\'' then readSingle (p.char :: (gap.folded ++ text)) .none rest
    else
      match rest with
      | q :: rest =>
        if q.char = '\'' then readSingle ('\'' :: (gap.folded ++ text)) .none rest
        else some ((gap.folded ++ text).reverse, q :: rest)
      | [] => some ((gap.folded ++ text).reverse, [])

/-- The characters that a backslash and a letter stand for. -/
def escapes : List (Char × Char) :=
  [('0', '\x00'), ('a', '\x07'), ('b', '\x08'), ('t', '\t'), ('\t', '\t'), ('n', '\n'),
    ('v', '\x0b'), ('f', '\x0c'), ('r', '\r'), ('e', '\x1b'), (' ', ' '), ('"', '"'), ('/', '/'),
    ('\\', '\\'), ('N', nextLine), ('_', '\xa0'), ('L', lineSeparator), ('P', paragraphSeparator)]

/-- How many hexadecimal digits follow a backslash and a letter. -/
def escapeDigits : List (Char × Nat) := [('x', 2), ('u', 4), ('U', 8)]

/-- The character with a code, if there is one. -/
def charOfCode? (n : Nat) : Option Char :=
  if n.isValidChar then some (Char.ofNat n) else none

/-- Where the reader of a double-quoted scalar stands: in the text, after a backslash, or before some
more digits of a code. -/
inductive Escape where
  | none
  | begun
  | digits (left : Nat) (code : Nat)

/-- Reads a double-quoted scalar up to its quote. -/
def readDouble (text : List Char) (gap : Gap) (escape : Escape) :
    List Placed → Option (List Char × List Placed)
  | [] => none
  | p :: rest =>
    match escape with
    | .none =>
      if isBlank p.char ∨ isBreak p.char then readDouble text (gap.extend p.char) .none rest
      else if (documentMark (p :: rest)).isSome then none
      else if p.char = '"' then some ((gap.folded ++ text).reverse, rest)
      else if p.char = '\\' then readDouble (gap.folded ++ text) .none .begun rest
      else readDouble (p.char :: (gap.folded ++ text)) .none .none rest
    | .begun =>
      if isBreak p.char then readDouble text (.breaks none []) .none rest
      else
        match escapeDigits.lookup p.char with
        | some left => readDouble text .none (.digits left 0) rest
        | none =>
          match escapes.lookup p.char with
          | some c => readDouble (c :: text) .none .none rest
          | none => none
    | .digits left code =>
      match Text.digit? 16 p.char with
      | none => none
      | some digit =>
        if left > 1 then readDouble text .none (.digits (left - 1) (code * 16 + digit)) rest
        else
          match charOfCode? (code * 16 + digit) with
          | some c => readDouble (c :: text) .none .none rest
          | none => none

/-! ## Blocks -/

/-- What becomes of the breaks at the end of a block. -/
inductive Chomping where
  | strip
  | clip
  | keep
  deriving DecidableEq, Repr

def Chomping.ofChar? (c : Char) : Option Chomping :=
  if c = '+' then some .keep else if c = '-' then some .strip else none

/-- The indentation given by a digit; zero is none. -/
def indentDigit? (c : Char) : Option (Option Nat) :=
  if c = '0' then some none
  else if c.isDigit then some (some (c.toNat - 0x30))
  else none

/-- The header of a block: how its end is chomped and how far it is indented, each of them optional,
in either order. -/
def readBlockHeader : List Placed → Option (Chomping × Option Nat × List Placed)
  | [] => some (.clip, none, [])
  | p :: rest =>
    match Chomping.ofChar? p.char, indentDigit? p.char with
    | some chomping, _ =>
      match rest with
      | [] => some (chomping, none, [])
      | q :: more =>
        match indentDigit? q.char with
        | none => some (chomping, none, rest)
        | some none => none
        | some (some n) => some (chomping, some n, more)
    | none, some none => none
    | none, some (some n) =>
      match rest with
      | [] => some (.clip, some n, [])
      | q :: more =>
        match Chomping.ofChar? q.char with
        | none => some (.clip, some n, rest)
        | some chomping => some (chomping, some n, more)
    | none, none => some (.clip, none, p :: rest)

/-- Passes over blanks and a comment to the next line; anything else is a fault. -/
def restOfLine (input : List Placed) : Option (List Placed) :=
  let (_, rest) := splitWhile isBlank input
  let rest :=
    match rest with
    | p :: _ => if p.char = '#' then (splitWhile (fun c => isBreak c = false) rest).2 else rest
    | [] => []
  match rest with
  | [] => some []
  | p :: rest => if isBreak p.char then some rest else none

/-- Passes over the blank lines at the start of a block whose indentation is not given: the deepest
column met, the breaks in reverse, and the first line that is not blank. -/
def leadingLines (deepest : Nat) (breaks : List Char) :
    List Placed → Option (Nat × List Char × List Placed)
  | [] => some (deepest, breaks, [])
  | p :: rest =>
    if p.char = ' ' then leadingLines deepest breaks rest
    else if p.char = '\t' then none
    else if isBreak p.char then leadingLines (max deepest p.column) (p.char :: breaks) rest
    else some (max deepest p.column, breaks, p :: rest)

/-- The text of a block so far, in reverse: its lines, the break after the last one, the breaks of
blank lines after that, and whether the last line started with a blank. -/
structure Block where
  text : List Char := []
  lastBreak : Option Char := none
  blankLines : List Char := []
  startedBlank : Bool := false

namespace Block

/-- Begins another line. In a folded block a line feed between two lines becomes a blank, or nothing
where blank lines follow it, unless one of the lines starts with a blank. -/
def beginLine (b : Block) (fold startsBlank : Bool) : Block :=
  let joined :=
    if fold ∧ b.lastBreak = some '\n' ∧ b.startedBlank = false ∧ startsBlank = false then
      if b.blankLines.isEmpty then ' ' :: b.text else b.text
    else b.lastBreak.toList ++ b.text
  { text := b.blankLines ++ joined, startedBlank := startsBlank }

/-- The whole text. -/
def finish (b : Block) : Chomping → List Char
  | .strip => b.text.reverse
  | .clip => (b.lastBreak.toList ++ b.text).reverse
  | .keep => (b.blankLines ++ b.lastBreak.toList ++ b.text).reverse

end Block

/-- Reads the lines of a block at an indentation, from inside a line or from the start of one. -/
def readLines (fold : Bool) (indent : Nat) (inside : Bool) (b : Block) :
    List Placed → Option (Block × List Placed)
  | [] => some (b, [])
  | p :: rest =>
    if inside then
      if isBreak p.char then readLines fold indent false { b with lastBreak := some p.char } rest
      else readLines fold indent true { b with text := p.char :: b.text } rest
    else if p.char = ' ' ∧ p.column < indent then readLines fold indent false b rest
    else if p.char = '\t' ∧ p.column < indent then none
    else if isBreak p.char then
      readLines fold indent false { b with blankLines := p.char :: b.blankLines } rest
    else if p.column = indent then
      let b := b.beginLine fold (isBlank p.char)
      readLines fold indent true { b with text := p.char :: b.text } rest
    else some (b, p :: rest)

/-- Reads a block scalar from its header on. `parent` is the column of the collection around it. -/
def readBlock (fold : Bool) (parent : Int) (input : List Placed) :
    Option (List Char × List Placed) := do
  let (chomping, given, rest) ← readBlockHeader input
  let rest ← restOfLine rest
  let (b, rest) ←
    match given with
    | some n => readLines fold ((max parent 0).toNat + n) false {} rest
    | none =>
      match leadingLines 0 [] rest with
      | none => none
      | some (deepest, breaks, rest) =>
        let indent := max (max deepest (parent + 1).toNat) 1
        readLines fold indent false { blankLines := breaks } rest
  return (b.finish chomping, rest)

end DepGraph.Yaml
