import DepGraph.Yaml.Token

/-!
# The tree of a YAML document

Tokens make up nodes: scalars, sequences, mappings and aliases. `Document.ofTokens?` is the one
document of a token list, `Document.read` that of a text.

An alias stands for an anchored node by number, since it may occur inside the very node that it stands
for; `Document.anchors` finds the node.
-/

namespace DepGraph.Yaml

inductive Node where
  | alias (number : Nat)
  | scalar (tag : Option TagText) (style : Style) (text : String)
  | sequence (items : List Node)
  | mapping (entries : List (Node × Node))

mutual

/-- How much is written for a node: one mark for a scalar or an alias, two around a collection. -/
def Node.marks : Node → Nat
  | .alias _ | .scalar _ _ _ => 1
  | .sequence items => Node.marksOfItems items + 2
  | .mapping entries => Node.marksOfEntries entries + 2

def Node.marksOfItems : List Node → Nat
  | [] => 0
  | item :: rest => item.marks + Node.marksOfItems rest

def Node.marksOfEntries : List (Node × Node) → Nat
  | [] => 0
  | (key, value) :: rest => key.marks + value.marks + Node.marksOfEntries rest

end

/-- The scalar that stands where nothing is written. -/
def Node.blank : Node := .scalar none .plain ""

/-- The anchors met so far. The number of an anchor is how many different names there were before it;
so an anchor whose name is not new shares its number with the next new one. -/
structure Anchors where
  /-- The latest number of each name. -/
  numbers : List (String × Nat) := []
  /-- How many anchors there were. -/
  count : Nat := 0
  /-- The finished anchored nodes, each with its number and its place among the anchors. -/
  nodes : List (Nat × Nat × Node) := []

namespace Anchors

/-- The number that an alias stands for. -/
def number? (a : Anchors) (name : String) : Option Nat := a.numbers.lookup name

/-- Notes an anchor: its number and its place. -/
def declare (a : Anchors) (name : String) : (Nat × Nat) × Anchors :=
  let number := a.numbers.length
  let others := a.numbers.filter (·.1 ≠ name)
  ((number, a.count), { a with numbers := (name, number) :: others, count := a.count + 1 })

/-- Notes the node of an anchor. -/
def finish (a : Anchors) (number place : Nat) (node : Node) : Anchors :=
  { a with nodes := (number, place, node) :: a.nodes }

/-- The node of a number: that of the last anchor which has it. -/
def node? (a : Anchors) (number : Nat) : Option Node :=
  let later := fun (best : Option (Nat × Node)) (entry : Nat × Nat × Node) =>
    if entry.1 = number ∧ best.all (·.1 < entry.2.1) then some entry.2 else best
  (a.nodes.foldl later none).map (·.2)

end Anchors

/-! ## From tokens to nodes -/

/-- What is left to read, and the anchors so far. -/
structure Reading where
  tokens : List Token
  anchors : Anchors := {}

/-- A step of reading, which may fail. -/
abbrev Read := StateT Reading Option

namespace Read

/-- The next token. -/
def peek : Read Token := do return (← get).tokens.headD .streamEnd

/-- Passes over the next token. -/
def skip : Read Unit := modify fun r => { r with tokens := r.tokens.tail }

/-- The expansion of a tag: its handle has to be known. -/
def expandTag (handles : List (String × TagText)) (handle : String) (suffix : TagText) :
    Option TagText :=
  if handle = "" then some suffix else (handles.lookup handle).map (· ++ suffix)

/-- The anchor and the tag before a node, in either order. -/
def properties (handles : List (String × TagText)) : Read (Option String × Option TagText) := do
  match ← peek with
  | .anchor name =>
    skip
    match ← peek with
    | .tag handle suffix =>
      skip
      return (some name, some (← expandTag handles handle suffix))
    | _ => return (some name, none)
  | .tag handle suffix =>
    skip
    match ← peek with
    | .anchor name =>
      skip
      return (some name, some (← expandTag handles handle suffix))
    | _ => return (none, some (← expandTag handles handle suffix))
  | _ => return (none, none)

/-- The end of an entry of a block sequence that holds nothing. -/
def endsItem (token : Token) : Bool :=
  token = .blockEntry || token = .blockEnd

/-- The end of a key or a value of a block mapping that holds nothing. -/
def endsEntry (token : Token) : Bool :=
  token = .key || token = .value || token = .blockEnd

/-- The end of an entry of a flow collection. -/
def endsFlow (closing token : Token) : Bool :=
  token = .flowEntry || token = closing

mutual

/-- A node. A block collection may stand only where `block` holds, and a sequence that is not indented
only where `indentless` does. -/
def node (handles : List (String × TagText)) (block indentless : Bool) : (fuel : Nat) → Read Node
  | 0 => failure
  | fuel + 1 => do
    match ← peek with
    | .alias name =>
      skip
      return .alias (← (← get).anchors.number? name)
    | _ =>
      let (anchor, tag) ← properties handles
      match anchor with
      | none => content handles block indentless none tag fuel
      | some name =>
        let ((number, place), anchors) := (← get).anchors.declare name
        modify fun r => { r with anchors }
        let result ← content handles block indentless (some name) tag fuel
        modify fun r => { r with anchors := r.anchors.finish number place result }
        return result

/-- What follows the properties of a node. -/
def content (handles : List (String × TagText)) (block indentless : Bool)
    (anchor : Option String) (tag : Option TagText) : (fuel : Nat) → Read Node
  | 0 => failure
  | fuel + 1 => do
    let token ← peek
    if indentless ∧ token = .blockEntry then
      return .sequence (← indentlessItems handles fuel)
    match token with
    | .scalar style text =>
      skip
      return .scalar tag style text
    | .flowSequenceStart =>
      skip
      return .sequence (← flowItems handles true fuel)
    | .flowMappingStart =>
      skip
      return .mapping (← flowEntries handles true fuel)
    | .blockSequenceStart =>
      if block then
        skip
        return .sequence (← blockItems handles fuel)
      else failure
    | .blockMappingStart =>
      if block then
        skip
        return .mapping (← blockEntries handles fuel)
      else failure
    | _ => if anchor.isSome ∨ tag.isSome then return .scalar tag .plain "" else failure

/-- The items of a block sequence, up to its end. -/
def blockItems (handles : List (String × TagText)) : (fuel : Nat) → Read (List Node)
  | 0 => failure
  | fuel + 1 => do
    match ← peek with
    | .blockEntry =>
      skip
      let item ← if endsItem (← peek) then pure .blank else node handles true false fuel
      return item :: (← blockItems handles fuel)
    | .blockEnd =>
      skip
      return []
    | _ => failure

/-- The items of a block sequence that is indented no deeper than the mapping around it. -/
def indentlessItems (handles : List (String × TagText)) : (fuel : Nat) → Read (List Node)
  | 0 => failure
  | fuel + 1 => do
    match ← peek with
    | .blockEntry =>
      skip
      let token ← peek
      let item ← if endsItem token ∨ endsEntry token then pure .blank
        else node handles true false fuel
      return item :: (← indentlessItems handles fuel)
    | _ => return []

/-- A key or a value of a block mapping. -/
def blockPart (handles : List (String × TagText)) : (fuel : Nat) → Read Node
  | 0 => failure
  | fuel + 1 => do
    if endsEntry (← peek) then return .blank else node handles true true fuel

/-- The entries of a block mapping, up to its end. -/
def blockEntries (handles : List (String × TagText)) : (fuel : Nat) → Read (List (Node × Node))
  | 0 => failure
  | fuel + 1 => do
    match ← peek with
    | .key =>
      skip
      let key ← blockPart handles fuel
      let value ←
        if (← peek) = .value then
          skip
          blockPart handles fuel
        else pure .blank
      return (key, value) :: (← blockEntries handles fuel)
    | .blockEnd =>
      skip
      return []
    | _ => failure

/-- The value of an entry of a flow collection, which may be left out. -/
def flowValue (handles : List (String × TagText)) (closing : Token) : (fuel : Nat) → Read Node
  | 0 => failure
  | fuel + 1 => do
    if (← peek) = .value then
      skip
      if endsFlow closing (← peek) then return .blank else node handles false false fuel
    else return .blank

/-- The items of a flow sequence, up to its bracket. An item may be a mapping of one entry. Where such
an entry has no key, the token after its indicator is passed over. -/
def flowItems (handles : List (String × TagText)) (first : Bool) : (fuel : Nat) → Read (List Node)
  | 0 => failure
  | fuel + 1 => do
    if (← peek) = .flowSequenceEnd then
      skip
      return []
    if first = false then
      if (← peek) = .flowEntry then skip else failure
    match ← peek with
    | .flowSequenceEnd =>
      skip
      return []
    | .key =>
      skip
      let token ← peek
      let key ←
        if token = .value ∨ endsFlow .flowSequenceEnd token then
          skip
          pure .blank
        else node handles false false fuel
      let value ← flowValue handles .flowSequenceEnd fuel
      return .mapping [(key, value)] :: (← flowItems handles false fuel)
    | _ =>
      let item ← node handles false false fuel
      return item :: (← flowItems handles false fuel)

/-- The entries of a flow mapping, up to its brace. -/
def flowEntries (handles : List (String × TagText)) (first : Bool) :
    (fuel : Nat) → Read (List (Node × Node))
  | 0 => failure
  | fuel + 1 => do
    if (← peek) = .flowMappingEnd then
      skip
      return []
    if first = false then
      if (← peek) = .flowEntry then skip else failure
    match ← peek with
    | .flowMappingEnd =>
      skip
      return []
    | .key =>
      skip
      let token ← peek
      let key ←
        if token = .value ∨ endsFlow .flowMappingEnd token then pure .blank
        else node handles false false fuel
      let value ← flowValue handles .flowMappingEnd fuel
      return (key, value) :: (← flowEntries handles false fuel)
    | _ =>
      let key ← node handles false false fuel
      return (key, .blank) :: (← flowEntries handles false fuel)

end

end Read

/-! ## Documents -/

/-- The root of a document, with the anchors that aliases in it refer to. -/
structure Document where
  root : Node
  anchors : Anchors

/-- The directives before a document: the version, once and of a known kind, and the expansions of
tag handles, each of them once. -/
def readDirectives (versioned : Bool) (handles : List (String × TagText)) :
    List Token → Option (List (String × TagText) × List Token)
  | .version major minor :: rest =>
    if versioned ∨ major ≠ 1 ∨ (minor ≠ 1 ∧ minor ≠ 2) then none
    else readDirectives true handles rest
  | .tagHandle handle expansion :: rest =>
    if (handles.lookup handle).isSome then none
    else readDirectives versioned ((handle, expansion) :: handles) rest
  | tokens => some (handles, tokens)

/-- The handles that every document knows, unless it gives them another expansion. -/
def standardHandles : List (String × TagText) :=
  [("!", .ofString "!"), ("!!", .ofString "tag:yaml.org,2002:")]

/-- Whether a document that has started holds nothing. -/
def endsDocument : Token → Bool
  | .version _ _ | .tagHandle _ _ | .documentStart | .documentEnd | .streamEnd => true
  | _ => false

namespace Document

/-- The document of its tokens, and the tokens after it. Only a document without directives may start
without a mark. -/
def readRoot (tokens : List Token) : Option (Document × List Token) := do
  let implicit := endsDocument (tokens.headD .streamEnd) = false
  let (handles, tokens) ← readDirectives false [] tokens
  let run := fun (tokens : List Token) =>
    -- At most three calls are made for each token.
    let fuel := 4 * tokens.length + 4
    (Read.node (handles ++ standardHandles) true false fuel).run { tokens }
  match tokens with
  | .documentStart :: rest =>
    if endsDocument (rest.headD .streamEnd) then some (⟨.blank, {}⟩, rest)
    else (run rest).map fun (root, r) => (⟨root, r.anchors⟩, r.tokens)
  | _ =>
    if implicit then (run tokens).map fun (root, r) => (⟨root, r.anchors⟩, r.tokens)
    else none

/-- The one document of a list of tokens. -/
def ofTokens? (tokens : List Token) : Option Document := do
  let (document, rest) ← readRoot tokens
  if rest.dropWhile (· = .documentEnd) = [.streamEnd] then some document else none

/-- The one document of a text. -/
def read (text : String) : Option Document := do
  ofTokens? (← Token.scan text)

end Document

end DepGraph.Yaml
