import DepGraph.Fingerprint
import DepGraph.Key
import Std.Data.TreeMap

/-!
# The dependency graph of one file

Nodes stand in sequence, one for each key, and an index finds the node of a key. An arc leads from a
definition to a use that depends on it; arcs are kept in the order in which they were added.

* `Graph.upsert`: adds a key or merges into its node.
* `Graph.upsertPair`: the interface and the implementation of one declaration.
* `Graph.addArc`: records a dependency; repeated and reflexive ones change nothing.
-/

namespace DepGraph

/-- A node: what it stands for, its fingerprint, its place in the graph, and whether the file provides
it or merely uses it. -/
structure Node where
  key : Key
  fingerprint : Option Fingerprint
  number : Nat
  provides : Bool
  deriving DecidableEq

namespace Node

/-- A short name for people, with the place where it was met. -/
def readable (n : Node) (location : String) : String :=
  if location = "" ∨ n.key.kind = .sourceFileProvide then n.key.readable
  else n.key.readable ++ " in " ++ location

/-- One line with everything the node holds. -/
def describe (n : Node) : String :=
  let fingerprint :=
    match n.fingerprint with
    | some f => "fingerprint: " ++ f.text
    | none => "no fingerprint"
  s!"{n.key.display} {fingerprint} sequence number: {n.number} is provides: {n.provides}"

end Node

/-- The numbers of a definition and of a use that depends on it. -/
structure Arc where
  definition : Nat
  use : Nat
  deriving DecidableEq, Repr

/-- Calls that a graph refuses. A refused call changes nothing. -/
inductive Misuse where
  /-- A node that was only used, and had a fingerprint already, was provided with one. -/
  | fingerprintedPlaceholder
  /-- A pair was asked for by its implementation. -/
  | implementationPair
  /-- A number that no node has. -/
  | missingNode
  deriving DecidableEq, Repr

structure Graph where
  nodes : Array Node := #[]
  index : Std.TreeMap Key Nat := ∅
  arcs : Array Arc := #[]

namespace Graph

/-- The graph without nodes. -/
def empty : Graph := {}

instance : Inhabited Graph := ⟨empty⟩

/-- The number of the node that a wider number refers to: references are 32 bits wide. -/
def slot (reference : Nat) : Nat := reference % (1 <<< 32)

/-- The node of a number. -/
def get? (g : Graph) (number : Nat) : Option Node := g.nodes[number]?

/-- The number of the node of a key. -/
def find? (g : Graph) (key : Key) : Option Nat := g.index[key]?

/-- The number of the node that stands for the file itself. -/
def sourceFile? (g : Graph) : Option Nat :=
  match g.nodes[0]? with
  | some node => if node.key.kind = .sourceFileProvide then some 0 else none
  | none => none

/-- The deps file name of the file that the graph was made for. -/
def depsName? (g : Graph) : Option String :=
  match g.nodes[0]? with
  | some node => node.key.depsName?
  | none => none

/-- Adds a node at the end. -/
def append (g : Graph) (key : Key) (fingerprint : Option Fingerprint) (provides : Bool) : Graph :=
  { g with
    nodes := g.nodes.push ⟨key, fingerprint, g.nodes.size, provides⟩
    index := g.index.insert key g.nodes.size }

end Graph

/-- The node after the file provides its key with a fingerprint. A node that was only used takes it;
two provisions that disagree leave none. -/
def Node.provide (n : Node) (fingerprint : Option Fingerprint) : Except Misuse Node :=
  if n.provides = false ∧ fingerprint.isSome then
    if n.fingerprint.isSome then .error .fingerprintedPlaceholder
    else .ok { n with provides := true, fingerprint }
  else if fingerprint = n.fingerprint then .ok { n with provides := true }
  else .ok { n with provides := true, fingerprint := none }

namespace Graph

/-- Finds the node of a key or adds it, and merges what is now known of it. -/
def upsert (g : Graph) (key : Key) (fingerprint : Option Fingerprint) (provides : Bool) :
    Except Misuse (Graph × Nat) :=
  match g.find? key with
  | none => .ok (g.append key fingerprint provides, g.nodes.size)
  | some i =>
    if provides then
      match g.nodes[i]? with
      | none => .error .missingNode
      | some node =>
        match node.provide fingerprint with
        | .error misuse => .error misuse
        | .ok node => .ok ({ g with nodes := g.nodes.setIfInBounds i node }, i)
    else .ok (g, i)

/-- Whether a use depends on a definition. -/
def dependsOn (g : Graph) (use definition : Nat) : Bool :=
  g.arcs.contains ⟨definition, use⟩

/-- Adds an arc between two nodes; an arc from a node to itself or one that is there already is not
added. -/
def link (g : Graph) (definition use : Nat) : Graph :=
  if definition = use ∨ g.dependsOn use definition then g
  else { g with arcs := g.arcs.push ⟨definition, use⟩ }

/-- Records that `use` depends on `definition`. -/
def addArc (g : Graph) (definition use : Nat) : Except Misuse Graph :=
  if definition = use ∨ (definition < g.nodes.size ∧ use < g.nodes.size) then
    .ok (g.link definition use)
  else .error .missingNode

/-- Provides both sides of a declaration, given by its interface key. The implementation depends on
the interface and never has a fingerprint. -/
def upsertPair (g : Graph) (key : Key) (fingerprint : Option Fingerprint) :
    Except Misuse (Graph × Nat × Nat) := do
  if key.isInterface = false then throw .implementationPair
  let (g, interface) ← g.upsert key fingerprint true
  let (g, implementation) ← g.upsert key.implementation none true
  let g ← g.addArc interface implementation
  return (g, interface, implementation)

/-- The numbers of the definitions that a use depends on, ascending. -/
def definitionsOf (g : Graph) (use : Nat) : List Nat :=
  ((g.arcs.toList.filter (·.use = use)).map (·.definition)).mergeSort

/-- All arcs, by use and then definition. -/
def sortedArcs (g : Graph) : List Arc :=
  (List.range g.nodes.size).flatMap fun use =>
    (g.definitionsOf use).map fun definition => ⟨definition, use⟩

/-- The keys at the two ends of an arc. -/
def arcKeys? (g : Graph) (arc : Arc) : Option (Key × Key) := do
  let definition ← g.nodes[arc.definition]?
  let use ← g.nodes[arc.use]?
  return (definition.key, use.key)

/-- All arcs as pairs of keys, ascending. -/
def arcKeys (g : Graph) : List (Key × Key) :=
  let before := fun (p q : Key × Key) =>
    (compareLex (compareOn Prod.fst) (compareOn Prod.snd) p q).isLE
  ((g.arcs.toList.filterMap g.arcKeys?).mergeSort before).eraseDups

end Graph

end DepGraph
