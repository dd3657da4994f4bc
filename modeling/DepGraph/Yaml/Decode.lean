import DepGraph.Data.Reading
import DepGraph.Yaml.Meaning
import DepGraph.Yaml.Node

/-!
# Values from YAML

How texts, counts, choices, lists and records are read from the tree of a document. A text is any
scalar; the other values that are not collections are scalars without quotes. A record is a mapping,
whose unknown keys are skipped.

A short document can stand for a huge value, as an aliased node is read again for each of its aliases.
So reading is a step of `Decode`, which counts down how many aliases may still be followed.
-/

namespace DepGraph.Yaml

/-- Why no value could be read: the text is not one YAML document, or not one of the right shape, or
it repeats itself too much. -/
inductive Fault where
  | malformed
  | mismatch
  | repetitive
  deriving DecidableEq, Repr

/-- A step of reading values; the state is the number of aliases that may still be followed. -/
abbrev Decode := StateT Nat (Except Fault)

/-- A node of a document. -/
structure Tree where
  anchors : Anchors
  node : Node

variable {α : Type}

def nullTag : TagText := .ofString "tag:yaml.org,2002:null"

def flagTag : TagText := .ofString "tag:yaml.org,2002:bool"

def countTag : TagText := .ofString "tag:yaml.org,2002:int"

namespace Tree

/-- The node itself, or the node that an alias stands for. -/
def target (t : Tree) : Decode Node :=
  match t.node with
  | .alias number => do
    match ← get with
    | 0 => throw .repetitive
    | left + 1 =>
      set left
      return (t.anchors.node? number).getD .blank
  | node => return node

/-- The text of any scalar. -/
def text (t : Tree) : Decode String := do
  match ← t.target with
  | .scalar _ _ text => return text
  | _ => throw .mismatch

/-- The text of a scalar that may mean something else: a plain one, or a literal block with the tag of
what is expected. -/
def bare (expected : TagText) (t : Tree) : Decode String := do
  match ← t.target with
  | .scalar _ .plain text => return text
  | .scalar (some tag) .literal text => if tag = expected then return text else throw .mismatch
  | _ => throw .mismatch

/-- The value of an option, or an error where there is none. -/
def orMismatch : Option α → Decode α
  | some value => return value
  | none => throw .mismatch

/-- Whether a scalar without quotes holds nothing. -/
def isNothing (text : String) : Bool := text = "" || isNull text

/-- The name that a tag gives to a choice, if it is text. -/
def tagName? (tag : TagText) : Option String :=
  match tag with
  | some '!' :: name =>
    let name := if name.isEmpty then tag else name
    if name.all Option.isSome then some (String.ofList name.reduceOption) else none
  | _ => none

/-- One of several names: the text of a scalar, or its tag when it holds nothing. -/
def choice (pick : String → Option α) (t : Tree) : Decode α := do
  match ← t.target with
  | .scalar tag style text =>
    match tag.bind tagName? with
    | some name =>
      if style = .plain ∧ isNothing text then orMismatch (pick name) else throw .mismatch
    | none => orMismatch (pick text)
  | _ => throw .mismatch

/-- A value, or none where a scalar without quotes holds nothing. -/
def optional (read : Tree → Decode α) (t : Tree) : Decode (Option α) := do
  let node ← t.target
  match node with
  | .scalar none .plain text => if isNothing text then return none
  | .scalar (some tag) .plain text =>
    if tag = nullTag then if isNull text then return none else throw .mismatch
  | _ => pure ()
  return some (← read ⟨t.anchors, node⟩)

/-- A list: a sequence, or nothing at all. -/
def list (read : Tree → Decode α) (t : Tree) : Decode (List α) := do
  match ← t.target with
  | .sequence items => items.mapM fun item => read ⟨t.anchors, item⟩
  | .scalar _ .plain "" => return []
  | _ => throw .mismatch

/-- Reads the entries of a mapping into the draft of a record. -/
def collect (anchors : Anchors) (fields : Fields Tree Decode α) :
    List (Node × Node) → fields.Draft → Decode fields.Draft
  | [], draft => return draft
  | (key, value) :: rest, draft => do
    let name ← text ⟨anchors, key⟩
    match fields.accept (fun _ => Fault.mismatch) draft name with
    | some next => collect anchors fields rest (← next ⟨anchors, value⟩)
    | none => collect anchors fields rest draft

/-- A record from a mapping. -/
def record (fields : Fields Tree Decode α) (t : Tree) : Decode α := do
  match ← t.target with
  | .mapping entries =>
    let draft ← collect t.anchors fields entries fields.blank
    fields.finish (fun _ => Fault.mismatch) draft
  | _ => throw .mismatch

instance : DataTree Tree Decode where
  text := text
  flag := fun t => do orMismatch (flag? (← t.bare flagTag))
  count := fun limit _ t => do
    orMismatch ((unsigned? (← t.bare countTag)).filter (· ≤ limit))
  choice := fun _ pick => choice pick
  fingerprint := fun t => do
    match Fingerprint.parse (← t.text) with
    | .ok f => return f
    | .error _ => throw .mismatch
  optional := optional
  list := list
  record := fun _ fields => record fields

end Tree

/-- How many aliases may be followed for each mark of a document. -/
def aliasesPerMark : Nat := 100

/-- Reads a text that holds one document. -/
def readText (read : Tree → Decode α) (input : String) : Except Fault α :=
  match Document.read input with
  | none => .error .malformed
  | some document =>
    (read ⟨document.anchors, document.root⟩).run' (aliasesPerMark * document.root.marks)

end DepGraph.Yaml
