import DepGraph.Data.Basic
import DepGraph.Data.Reading
import DepGraph.Graph.Basic

/-!
# The deps file

What a graph looks like in a file: a header, then a record for each node in sequence order that lists
the numbers of the nodes it depends on.

* `Graph.toFile`: the file of a graph.
* `DepsFile.graph`: the graph of a file, or the first thing that is wrong with it.
-/

namespace DepGraph

/-- How a file tells what it is. -/
structure Header where
  signature : String
  major : Nat
  minor : Nat
  compilerVersion : String
  deriving DecidableEq, Repr

/-- The signature of every deps file. -/
def Header.expectedSignature : String := "DEPS"

/-- The major version that can be read. -/
def Header.expectedMajor : Nat := 1

/-- The header of every file that is written. -/
def Header.current : Header :=
  ⟨Header.expectedSignature, Header.expectedMajor, 0, "fine-grained-deps 0.1.0"⟩

/-- A node in a file. -/
structure NodeRecord where
  key : Key
  fingerprint : Option Fingerprint
  number : Nat
  definitions : List Nat
  provides : Bool
  deriving DecidableEq

structure DepsFile where
  header : Header
  nodes : List NodeRecord
  deriving DecidableEq

/-- The record of the node at a position. -/
def Graph.record (g : Graph) (node : Node) (position : Nat) : NodeRecord :=
  ⟨node.key, node.fingerprint, node.number, g.definitionsOf position, node.provides⟩

/-- The file of a graph. -/
def Graph.toFile (g : Graph) : DepsFile :=
  ⟨Header.current, g.nodes.toList.zipIdx.map fun (node, i) => g.record node i⟩

namespace DepsFile

/-- Why a file holds no graph. -/
inductive Problem where
  | signature (found : String)
  | version (major minor : Nat)
  | misnumbered (position number : Nat)
  | duplicateKey (key : Key)
  | missingNode (arc : Arc)
  | selfDependency (number : Nat)
  deriving DecidableEq

def Problem.message : Problem → String
  | .signature found => s!"not a deps file: signature is '{found}'"
  | .version major minor => s!"unsupported deps format version {major}.{minor} (expected major 1)"
  | .misnumbered position number => s!"node at position {position} has sequence number {number}"
  | .duplicateKey key => s!"duplicate key {key.display}"
  | .missingNode arc => s!"arc {arc.definition} -> {arc.use} refers to a missing node"
  | .selfDependency number => s!"node {number} depends on itself"

/-- Adds the nodes of records, which have to be numbered by position and to have different keys. -/
def addNodes (g : Graph) : List NodeRecord → Except Problem Graph
  | [] => .ok g
  | record :: rest =>
    if record.number ≠ g.nodes.size then .error (.misnumbered g.nodes.size record.number)
    else if (g.find? record.key).isSome then .error (.duplicateKey record.key)
    else addNodes (g.append record.key record.fingerprint record.provides) rest

/-- Adds arcs, which have to join two different nodes. -/
def addArcs (g : Graph) : List Arc → Except Problem Graph
  | [] => .ok g
  | arc :: rest =>
    if arc.definition ≥ g.nodes.size ∨ arc.use ≥ g.nodes.size then .error (.missingNode arc)
    else if arc.definition = arc.use then .error (.selfDependency arc.definition)
    else addArcs (g.link arc.definition arc.use) rest

/-- The arcs that a record lists. -/
def recordArcs (record : NodeRecord) : List Arc :=
  record.definitions.map fun definition => ⟨definition, record.number⟩

/-- The graph of a file: all nodes are checked before any arc. -/
def graph (file : DepsFile) : Except Problem Graph := do
  if file.header.signature ≠ Header.expectedSignature then
    throw (.signature file.header.signature)
  if file.header.major ≠ Header.expectedMajor then
    throw (.version file.header.major file.header.minor)
  let g ← addNodes .empty file.nodes
  addArcs g (file.nodes.flatMap recordArcs)

end DepsFile

/-! ## As data -/

def Key.toData (k : Key) : Data :=
  .record [("kind", .text k.kind.name), ("aspect", .text k.aspect.name),
    ("context", .text k.context), ("name", .text k.name)]

def Fingerprint.toData (f : Fingerprint) : Data := .text f.text

def Header.toData (h : Header) : Data :=
  .record [("signature", .text h.signature), ("major", .count h.major), ("minor", .count h.minor),
    ("compiler_version", .text h.compilerVersion)]

def NodeRecord.toData (r : NodeRecord) : Data :=
  .record ([("key", r.key.toData)]
    ++ Data.optionalField "fingerprint" (r.fingerprint.map Fingerprint.toData)
    ++ [("sequence_number", .count r.number),
      ("defs_i_depend_upon", .list (r.definitions.map .count)), ("is_provides", .flag r.provides)])

def DepsFile.toData (f : DepsFile) : Data :=
  .record [("header", f.header.toData), ("nodes", .list (f.nodes.map NodeRecord.toData))]

/-! ## From data -/

variable {ν : Type} {m : Type → Type} [DataTree ν m]

/-- The largest number that a 64-bit count can hold. -/
def maxCount : Nat := 1 <<< 64 - 1

/-- The largest number that a version part can hold. -/
def maxVersion : Nat := 1 <<< 16 - 1

def Kind.read : ν → m Kind := DataTree.choice (Kind.all.map Kind.name) Kind.ofName?

def Aspect.read : ν → m Aspect := DataTree.choice (Aspect.all.map Aspect.name) Aspect.ofName?

def Key.fields : Fields ν m Key :=
  Fields.start Key.mk
    |>.required "kind" Kind.read
    |>.required "aspect" Aspect.read
    |>.required "context" DataTree.text
    |>.required "name" DataTree.text

def Key.read : ν → m Key := DataTree.record "DependencyKey" Key.fields

def Header.fields : Fields ν m Header :=
  Fields.start Header.mk
    |>.required "signature" DataTree.text
    |>.required "major" (DataTree.count maxVersion "u16")
    |>.required "minor" (DataTree.count maxVersion "u16")
    |>.required "compiler_version" DataTree.text

def Header.read : ν → m Header := DataTree.record "FormatHeader" Header.fields

def NodeRecord.fields : Fields ν m NodeRecord :=
  Fields.start NodeRecord.mk
    |>.required "key" Key.read
    |>.defaulted "fingerprint" (DataTree.optional DataTree.fingerprint) none
    |>.required "sequence_number" (DataTree.count maxCount "usize")
    |>.defaulted "defs_i_depend_upon" (DataTree.list (DataTree.count maxCount "usize")) []
    |>.required "is_provides" DataTree.flag

def NodeRecord.read : ν → m NodeRecord :=
  DataTree.record "SerializedNode" NodeRecord.fields

def DepsFile.fields : Fields ν m DepsFile :=
  Fields.start DepsFile.mk
    |>.required "header" Header.read
    |>.required "nodes" (DataTree.list NodeRecord.read)

def DepsFile.read : ν → m DepsFile := DataTree.record "SerializedGraph" DepsFile.fields

end DepGraph
