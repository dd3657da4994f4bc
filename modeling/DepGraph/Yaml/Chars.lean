/-!
# Characters of YAML

The classes of characters that decide how a YAML text is taken apart, and the places of its
characters. Carriage returns and the next-line character are unified with the line feed beforehand;
the line and paragraph separators break lines too, but stay what they are.
-/

namespace DepGraph.Yaml

def lineSeparator : Char := '\u2028'

def paragraphSeparator : Char := '\u2029'

def nextLine : Char := '\x85'

def byteOrderMark : Char := '\ufeff'

/-- What ends a line. -/
def isBreak (c : Char) : Bool :=
  c = '\n' || c = lineSeparator || c = paragraphSeparator

/-- Blank space inside a line. -/
def isBlank (c : Char) : Bool :=
  c = ' ' || c = '\t'

/-- Digits, letters, `_` and `-`: what names are made of. -/
def isWord (c : Char) : Bool :=
  c.isAlphanum || c = '_' || c = '-'

/-- The characters with a meaning inside flow collections. -/
def isFlowIndicator (c : Char) : Bool :=
  c = ',' || c = '[' || c = ']' || c = '\x7b' || c = '\x7d'

/-- The characters that may occur in a text at all. -/
def isAllowed (c : Char) : Bool :=
  let n := c.toNat
  n = 0x09 || n = 0x0A || n = 0x0D || (0x20 ≤ n && n ≤ 0x7E) || n = 0x85
    || (0xA0 ≤ n && n ≤ 0xD7FF) || (0xE000 ≤ n && n ≤ 0xFFFD) || 0x10000 ≤ n

/-- One line feed for each way to end a line that is not kept. -/
def unifyBreaks : List Char → List Char
  | '\r' :: '\n' :: rest => '\n' :: unifyBreaks rest
  | c :: rest => (if c = '\r' ∨ c = nextLine then '\n' else c) :: unifyBreaks rest
  | [] => []

/-- A character with its place: how many bytes stand before it, its line and its column. -/
structure Placed where
  char : Char
  index : Nat
  line : Nat
  column : Nat
  deriving DecidableEq, Repr

/-- The characters of a text with their places. -/
def place (index line column : Nat) : List Char → List Placed
  | [] => []
  | c :: rest =>
    ⟨c, index, line, column⟩ ::
      if isBreak c then place (index + c.utf8Size) (line + 1) 0 rest
      else place (index + c.utf8Size) line (column + 1) rest

/-- Whether what follows is blank space, a break or the end. -/
def blankAhead : List Placed → Bool
  | [] => true
  | p :: _ => isBlank p.char || isBreak p.char

/-- Whether a line starts with `---` or `...` on its own. -/
def documentMark : List Placed → Option Char
  | a :: b :: c :: rest =>
    if a.column = 0 ∧ a.char = b.char ∧ b.char = c.char ∧ (a.char = '-' ∨ a.char = '.')
      ∧ blankAhead rest then some a.char
    else none
  | _ => none

/-- The characters up to the first one that fails a test, and what follows them. -/
def splitWhile (p : Char → Bool) : List Placed → List Char × List Placed
  | [] => ([], [])
  | q :: rest =>
    if p q.char then
      let (taken, rest) := splitWhile p rest
      (q.char :: taken, rest)
    else ([], q :: rest)

end DepGraph.Yaml
