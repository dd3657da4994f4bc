import DepGraph.Text.Utf8
import DepGraph.Yaml.Scalar

/-!
# Tokens of a YAML text

A YAML text as a list of tokens: indicators, scalars, and the starts and ends of block collections,
which follow from indentation. `Token.scan` gives the tokens of a whole text, or nothing when it is
not YAML.

A key that is not marked by `?` is known as a key only when its `:` comes. Until then it is a
`Candidate` that remembers how many tokens stand before it, so that the key token, and the start of a
mapping if need be, can be put there.
-/

namespace DepGraph.Yaml

/-- The text of a tag. What is given by octets need not be a character. -/
abbrev TagText := List Glyph

def TagText.ofString (s : String) : TagText := s.toList.map some

inductive Token where
  | streamEnd
  | version (major minor : Nat)
  | tagHandle (handle : String) (expansion : TagText)
  | documentStart
  | documentEnd
  | blockSequenceStart
  | blockMappingStart
  | blockEnd
  | flowSequenceStart
  | flowSequenceEnd
  | flowMappingStart
  | flowMappingEnd
  | blockEntry
  | flowEntry
  | key
  | value
  | alias (name : String)
  | anchor (name : String)
  | tag (handle : String) (suffix : TagText)
  | scalar (style : Style) (text : String)
  deriving DecidableEq, Repr

/-! ## Names and tags -/

/-- Reads the name of an anchor or an alias. -/
def readAnchor (input : List Placed) : Option (String × List Placed) :=
  let (name, rest) := splitWhile isWord input
  let ended := blankAhead rest || rest.head?.any fun p => "?:,]\x7d%@\x60".toList.contains p.char
  if name.isEmpty ∨ ended = false then none else some (String.ofList name, rest)

/-- Reads a number of at most nine digits. -/
def readNumber (input : List Placed) : Option (Nat × List Placed) :=
  let (digits, rest) := splitWhile Char.isDigit input
  if digits.isEmpty ∨ digits.length > 9 then none
  else some (digits.foldl (fun n c => n * 10 + (c.toNat - 0x30)) 0, rest)

/-- Reads a tag handle, or what looks like the start of one: `!`, then letters, then perhaps `!`. -/
def readHandle : List Placed → Option (List Char × List Placed)
  | [] => none
  | p :: rest =>
    if p.char ≠ '!' then none
    else
      let (name, rest) := splitWhile isWord rest
      match rest with
      | q :: more => if q.char = '!' then some ('!' :: name ++ ['!'], more)
        else some ('!' :: name, rest)
      | [] => some ('!' :: name, [])

/-- The characters of a tag, `%` aside; a verbatim tag may also hold some flow indicators. -/
def isTagChar (verbatim : Bool) (c : Char) : Bool :=
  isWord c || ";/?:@&=+$.!~*'()".toList.contains c || (verbatim && ",[]".toList.contains c)

/-- How many octets a character has that starts with an octet. -/
def octetCount? (octet : Nat) : Option Nat :=
  if octet < 0x80 then some 1
  else if octet < 0xC0 then none
  else if octet < 0xE0 then some 2
  else if octet < 0xF0 then some 3
  else if octet < 0xF8 then some 4
  else none

/-- The bits that the first of some octets contributes. -/
def leadBits (octet count : Nat) : Nat :=
  if count = 1 then octet else octet % (1 <<< (7 - count))

/-- The character of a code given by a number of octets: none where it should have been given by
fewer, or where no character has the code. -/
def charOfOctets (code count : Nat) : Glyph :=
  if code.isValidChar ∧ (Char.ofNat code).utf8Size = count then some (Char.ofNat code) else none

/-- Where the reader of a tag stands: in the text, or inside an escape with one digit or none read and
some octets of a character to come. -/
inductive TagEscape where
  | none
  | percent (left code count : Nat)
  | digits (read : Option Nat) (left code count : Nat)

/-- Reads the characters of a tag, where `%` and two digits stand for an octet. `text` is in
reverse. -/
def readTagChars (verbatim : Bool) (text : TagText) (escape : TagEscape) :
    List Placed → Option (TagText × List Placed)
  | [] =>
    match escape with
    | .none => some (text.reverse, [])
    | _ => Option.none
  | p :: rest =>
    match escape with
    | .none =>
      if p.char = '%' then readTagChars verbatim text (.digits Option.none 0 0 0) rest
      else if isTagChar verbatim p.char then readTagChars verbatim (some p.char :: text) .none rest
      else some (text.reverse, p :: rest)
    | .percent left code count =>
      if p.char = '%' then readTagChars verbatim text (.digits Option.none left code count) rest
      else Option.none
    | .digits Option.none left code count =>
      (Text.digit? 16 p.char).bind fun high =>
        readTagChars verbatim text (.digits (some high) left code count) rest
    | .digits (some high) left code count =>
      (Text.digit? 16 p.char).bind fun low =>
        let octet := high * 16 + low
        if count = 0 then
          (octetCount? octet).bind fun count =>
            let code := leadBits octet count
            if count = 1 then readTagChars verbatim (charOfOctets code 1 :: text) .none rest
            else readTagChars verbatim text (.percent (count - 1) code count) rest
        else if octet < 0x80 ∨ octet ≥ 0xC0 then Option.none
        else
          let code := code * 64 + octet % 64
          if left ≤ 1 then readTagChars verbatim (charOfOctets code count :: text) .none rest
          else readTagChars verbatim text (.percent (left - 1) code count) rest

/-- The part of a tag's text that counts, which ends at a zero octet. -/
def TagText.counted (text : TagText) : TagText := text.takeWhile (· ≠ some '\x00')

/-- Reads a tag after its `!`, which is still in the input: `!<verbatim>`, `!handle!suffix`, `!suffix`
or `!` alone. -/
def readTag (flow : Bool) (input : List Placed) : Option (Token × List Placed) := do
  let (token, rest) ←
    match input with
    | _ :: q :: more =>
      if q.char = '<' then verbatim more else shorthand
    | _ => shorthand
  let ended := blankAhead rest || (flow && rest.head?.any (·.char = ','))
  if ended then some (token, rest) else none
where
  verbatim (more : List Placed) : Option (Token × List Placed) := do
    let (suffix, rest) ← readTagChars true [] .none more
    match rest with
    | p :: rest =>
      if suffix.isEmpty ∨ p.char ≠ '>' then none
      else some (.tag "" suffix.counted, rest)
    | [] => none
  shorthand : Option (Token × List Placed) := do
    let (handle, rest) ← readHandle input
    let (suffix, rest) ← readTagChars false [] .none rest
    if handle.length > 1 ∧ handle.getLast? = some '!' then
      if suffix.isEmpty then none
      else some (.tag (String.ofList handle) suffix.counted, rest)
    else
      let suffix := TagText.counted ((handle.drop 1).map some ++ suffix)
      if suffix.isEmpty then some (.tag "" [some '!'], rest)
      else some (.tag "!" suffix, rest)

/-- Reads a directive after its `%`. -/
def readDirective (input : List Placed) : Option (Token × List Placed) := do
  let (name, rest) := splitWhile isWord input
  if blankAhead rest = false then none
  else
    let (_, rest) := splitWhile isBlank rest
    if name = "YAML".toList then
      let (major, rest) ← readNumber rest
      match rest with
      | [] => none
      | p :: rest =>
        if p.char ≠ '.' then none
        else
          let (minor, rest) ← readNumber rest
          return (.version major minor, ← restOfLine rest)
    else if name = "TAG".toList then
      let (handle, rest) ← readHandle rest
      if handle.length > 1 ∧ handle.getLast? ≠ some '!' then none
      else
        let (blanks, rest) := splitWhile isBlank rest
        if blanks.isEmpty then none
        else
          let (expansion, rest) ← readTagChars true [] .none rest
          if expansion.isEmpty ∨ blankAhead rest = false then none
          else
            return (.tagHandle (String.ofList handle) expansion.counted, ← restOfLine rest)
    else none

/-! ## Scanning -/

/-- The tokens so far, in reverse, and their number. -/
structure Tokens where
  reversed : List Token
  count : Nat
  count_eq : count = reversed.length

namespace Tokens

def empty : Tokens := ⟨[], 0, rfl⟩

def push (ts : Tokens) (token : Token) : Tokens :=
  ⟨token :: ts.reversed, ts.count + 1, by simp [ts.count_eq]⟩

/-- Puts tokens, given in reverse, before those that came after a position. -/
def insertAt (ts : Tokens) (position : Nat) (inserted : List Token) : Tokens :=
  let later := ts.count - position
  ⟨ts.reversed.take later ++ inserted ++ ts.reversed.drop later, ts.count + inserted.length, by
    have := ts.count_eq
    simp only [List.length_append, List.length_take, List.length_drop]
    omega⟩

def toList (ts : Tokens) : List Token := ts.reversed.reverse

end Tokens

/-- What may turn out to be a key: how many tokens stand before it, where it is, and whether nothing
but a key can stand there. -/
structure Candidate where
  position : Nat
  index : Nat
  line : Nat
  column : Nat
  required : Bool
  deriving DecidableEq, Repr

/-- The state of a scan; `outer` holds the candidates of the collections around the innermost open
flow collection. -/
structure Scan where
  rest : List Placed
  tokens : Tokens := .empty
  /-- The column of the innermost block collection, or -1. -/
  indent : Int := -1
  /-- The columns of the block collections around that one, the innermost first. -/
  outerIndents : List Int := []
  /-- Whether a key may start here. -/
  keyAllowed : Bool := true
  candidate : Option Candidate := none
  outer : List (Option Candidate) := []

namespace Scan

/-- Whether a flow collection is open. -/
def flow (s : Scan) : Bool := s.outer.isEmpty = false

def emit (s : Scan) (token : Token) : Scan := { s with tokens := s.tokens.push token }

/-- Closes the block collections that are indented deeper than a column. -/
def closeBlocks (column : Int) (tokens : Tokens) (indent : Int) :
    List Int → Tokens × Int × List Int
  | [] => (tokens, indent, [])
  | around :: outer =>
    if indent > column then closeBlocks column (tokens.push .blockEnd) around outer
    else (tokens, indent, around :: outer)

/-- Ends the block collections that a token at a column does not belong to. -/
def outdent (s : Scan) (column : Int) : Scan :=
  if s.flow then s
  else
    let (tokens, indent, outerIndents) := closeBlocks column s.tokens s.indent s.outerIndents
    { s with tokens, indent, outerIndents }

/-- Whether a token at a column starts a block collection. -/
def opensBlock (s : Scan) (column : Nat) : Bool :=
  s.flow = false && s.indent < column

/-- Starts a block collection at a column if none is open there. -/
def openBlock (s : Scan) (column : Nat) (start : Token) : Scan :=
  if s.opensBlock column then
    { s with
      tokens := s.tokens.push start
      indent := column
      outerIndents := s.indent :: s.outerIndents }
  else s

/-- Gives up the candidate, unless it is required. -/
def dropCandidate (s : Scan) : Option Scan :=
  if s.candidate.any (·.required) then none else some { s with candidate := none }

/-- Whether a candidate is too far back to be a key: on another line or more than 1024 bytes. -/
def isStale (p : Placed) (c : Candidate) : Bool :=
  c.line < p.line || c.index + 1024 < p.index

/-- Gives up the candidates that are too far back, unless one of them is required. -/
def dropStale (s : Scan) (p : Placed) : Option Scan :=
  if (s.candidate :: s.outer).any fun c => c.any fun c => c.required && isStale p c then none
  else
    let keep := fun (c : Option Candidate) => c.filter fun c => isStale p c = false
    some { s with candidate := keep s.candidate, outer := s.outer.map keep }

/-- Makes what starts here a candidate, if a key may start here. -/
def noteCandidate (s : Scan) (p : Placed) : Option Scan :=
  if s.keyAllowed then do
    let s ← s.dropCandidate
    let required := s.flow = false && s.indent == p.column
    return { s with candidate := some ⟨s.tokens.count, p.index, p.line, p.column, required⟩ }
  else some s

/-- Passes over blanks, comments and breaks, and over a byte order mark at the start of a line, which
has a column but no meaning. In a block collection a key may start on a new line; a tab is blank only
where no key may start. -/
def skipBlank (flow keyAllowed comment : Bool) : List Placed → Bool × List Placed
  | [] => (keyAllowed, [])
  | p :: rest =>
    if isBreak p.char then skipBlank flow (keyAllowed || !flow) false rest
    else if comment then skipBlank flow keyAllowed true rest
    else if p.char = ' ' ∨ (p.char = '\t' ∧ (flow ∨ keyAllowed = false)) then
      skipBlank flow keyAllowed false rest
    else if p.char = '#' then skipBlank flow keyAllowed true rest
    else if p.char = byteOrderMark ∧ p.column = 0 then skipBlank flow keyAllowed false rest
    else (keyAllowed, p :: rest)

/-- Puts a token that ends all block collections. -/
def fetchBoundary (s : Scan) (token : Token) (rest : List Placed) : Option Scan := do
  let s ← (s.outdent (-1)).dropCandidate
  return { s.emit token with keyAllowed := false, rest }

/-- The start of a flow collection. -/
def fetchFlowStart (s : Scan) (p : Placed) (token : Token) (rest : List Placed) : Option Scan := do
  let s ← s.noteCandidate p
  return { s.emit token with
    keyAllowed := true, candidate := none, outer := s.candidate :: s.outer, rest }

/-- The end of a flow collection. -/
def fetchFlowEnd (s : Scan) (token : Token) (rest : List Placed) : Option Scan := do
  let s ← s.dropCandidate
  let s := { s.emit token with keyAllowed := false, rest }
  match s.outer with
  | [] => return s
  | candidate :: outer => return { s with candidate, outer }

/-- A comma between the entries of a flow collection. -/
def fetchFlowEntry (s : Scan) (rest : List Placed) : Option Scan := do
  let s ← s.dropCandidate
  return { s.emit .flowEntry with keyAllowed := true, rest }

/-- The indicator of an entry of a block sequence. -/
def fetchBlockEntry (s : Scan) (p : Placed) (rest : List Placed) : Option Scan := do
  if s.flow = false ∧ s.keyAllowed = false then none
  else
    let s ← (s.openBlock p.column .blockSequenceStart).dropCandidate
    return { s.emit .blockEntry with keyAllowed := true, rest }

/-- The indicator of a key. -/
def fetchKey (s : Scan) (p : Placed) (rest : List Placed) : Option Scan := do
  if s.flow = false ∧ s.keyAllowed = false then none
  else
    let s ← (s.openBlock p.column .blockMappingStart).dropCandidate
    return { s.emit .key with keyAllowed := !s.flow, rest }

/-- The indicator of a value: what stands before it on the line is the key, if it is a candidate. -/
def fetchValue (s : Scan) (p : Placed) (rest : List Placed) : Option Scan :=
  match s.candidate with
  | some c =>
    let opened := s.opensBlock c.column
    let inserted := if opened then [Token.key, .blockMappingStart] else [.key]
    let s := { s with tokens := (s.tokens.insertAt c.position inserted).push .value }
    let s := { s with candidate := none, keyAllowed := false, rest }
    some (if opened then
      { s with indent := c.column, outerIndents := s.indent :: s.outerIndents } else s)
  | none =>
    if s.flow then some { s.emit .value with keyAllowed := false, rest }
    else if s.keyAllowed = false then none
    else
      let s := s.openBlock p.column .blockMappingStart
      some { s.emit .value with keyAllowed := true, rest }

/-- An alias or an anchor. -/
def fetchAnchor (s : Scan) (p : Placed) (token : String → Token) (rest : List Placed) :
    Option Scan := do
  let s ← s.noteCandidate p
  let (name, rest) ← readAnchor rest
  return { s.emit (token name) with keyAllowed := false, rest }

def fetchTag (s : Scan) (p : Placed) (rest : List Placed) : Option Scan := do
  let s ← s.noteCandidate p
  let (token, rest) ← readTag s.flow (p :: rest)
  return { s.emit token with keyAllowed := false, rest }

def fetchBlockScalar (s : Scan) (style : Style) (rest : List Placed) : Option Scan := do
  let s ← s.dropCandidate
  let (text, rest) ← readBlock (style = .folded) s.indent rest
  return { s.emit (.scalar style (String.ofList text)) with keyAllowed := true, rest }

def fetchQuoted (s : Scan) (p : Placed) (style : Style) (rest : List Placed) : Option Scan := do
  let s ← s.noteCandidate p
  let (text, rest) ←
    if style = .single then readSingle [] .none rest else readDouble [] .none .none rest
  return { s.emit (.scalar style (String.ofList text)) with keyAllowed := false, rest }

def fetchPlain (s : Scan) (p : Placed) (rest : List Placed) : Option Scan := do
  let s ← s.noteCandidate p
  let (text, broken, rest) ← readPlain s.flow (s.indent + 1) [] .none (p :: rest)
  return { s.emit (.scalar .plain (String.ofList text)) with keyAllowed := broken, rest }

/-- Whether a plain scalar can start here. -/
def startsPlain (flow : Bool) (p : Placed) (rest : List Placed) : Bool :=
  if p.char = '-' then rest.head?.all fun q => isBlank q.char = false
  else if p.char = '?' ∨ p.char = ':' then flow = false && blankAhead rest = false
  else isBlank p.char = false && isBreak p.char = false && isFlowIndicator p.char = false
    && "#&*!|>'\"%@\x60".toList.contains p.char = false

/-- The next token, which starts with a given character. -/
def fetch (s : Scan) (p : Placed) (rest : List Placed) : Option Scan :=
  if p.column = 0 ∧ p.char = '%' then do
    let s ← (s.outdent (-1)).dropCandidate
    let (token, rest) ← readDirective rest
    return { s.emit token with keyAllowed := false, rest }
  else
    match documentMark (p :: rest) with
    | some mark =>
      s.fetchBoundary (if mark = '-' then .documentStart else .documentEnd) (rest.drop 2)
    | none =>
      let indicator := s.flow || blankAhead rest
      match p.char with
      | '[' => s.fetchFlowStart p .flowSequenceStart rest
      | '\x7b' => s.fetchFlowStart p .flowMappingStart rest
      | ']' => s.fetchFlowEnd .flowSequenceEnd rest
      | '\x7d' => s.fetchFlowEnd .flowMappingEnd rest
      | ',' => s.fetchFlowEntry rest
      | '*' => s.fetchAnchor p .alias rest
      | '&' => s.fetchAnchor p .anchor rest
      | '!' => s.fetchTag p rest
      | '\'' => s.fetchQuoted p .single rest
      | '"' => s.fetchQuoted p .double rest
      | c =>
        if c = '-' ∧ blankAhead rest then s.fetchBlockEntry p rest
        else if c = '?' ∧ indicator then s.fetchKey p rest
        else if c = ':' ∧ indicator then s.fetchValue p rest
        else if c = '|' ∧ s.flow = false then s.fetchBlockScalar .literal rest
        else if c = '>' ∧ s.flow = false then s.fetchBlockScalar .folded rest
        else if startsPlain s.flow p rest then s.fetchPlain p rest
        else none

/-- Scans to the end. Every step takes at least one character, so `fuel` is their number and one. -/
def run (s : Scan) : (fuel : Nat) → Option (List Token)
  | 0 => none
  | fuel + 1 =>
    let (keyAllowed, rest) := skipBlank s.flow s.keyAllowed false s.rest
    let s := { s with keyAllowed, rest }
    match rest with
    | [] => (s.fetchBoundary .streamEnd []).map (·.tokens.toList)
    | p :: rest =>
      match s.dropStale p with
      | none => none
      | some s =>
        match (s.outdent p.column).fetch p rest with
        | none => none
        | some s => s.run fuel

end Scan

/-- The tokens of a text. -/
def Token.scan (text : String) : Option (List Token) :=
  let chars := text.toList
  if chars.all isAllowed then
    let rest := place 0 0 0 (unifyBreaks chars)
    Scan.run { rest } (rest.length + 1)
  else none

end DepGraph.Yaml
