import DepGraph.Graph.Basic

/-!
# Dot rendering

A graph as Graphviz text: nodes in sequence order, then arcs by definition and use. Externals and
implementations can be left out, and arcs go with the nodes at their ends.
-/

namespace DepGraph

/-- Which nodes a rendering shows. -/
structure DotOptions where
  externals : Bool := true
  implementations : Bool := true
  deriving DecidableEq, Repr

namespace DotOptions

/-- Whether a node is shown. -/
def shows (o : DotOptions) (node : Node) : Bool :=
  (o.externals || node.key.kind ≠ .externalDepend)
    && (o.implementations || node.key.isInterface)

end DotOptions

namespace Dot

/-- A backslash before each backslash and each double quote. -/
def escape (text : List Char) : List Char :=
  text.flatMap fun c => if c = '\\' ∨ c = '"' then ['\\', c] else [c]

/-- What a node's label says. -/
def label (node : Node) : String :=
  let base := node.key.aspect.name ++ " " ++ node.key.readable
  match node.fingerprint with
  | some f => base ++ "\\n" ++ f.text
  | none => base

def shape : Kind → String
  | .topLevel => "ellipse"
  | .nominal => "box"
  | .potentialMember => "diamond"
  | .member => "parallelogram"
  | .dynamicLookup => "hexagon"
  | .externalDepend => "folder"
  | .sourceFileProvide => "note"

def style (node : Node) : String :=
  if node.provides then "solid" else "dotted"

/-- The statement of one node. -/
def nodeLine (node : Node) : List Char :=
  ("  " ++ toString node.number ++ " [label=\"").toList ++ escape (label node).toList
    ++ ("\", shape=" ++ shape node.key.kind ++ ", style=" ++ style node ++ "];\n").toList

/-- The statement of one arc. -/
def arcLine (arc : Arc) : List Char :=
  ("  " ++ toString arc.definition ++ " -> " ++ toString arc.use ++ ";\n").toList

end Dot

namespace Graph

/-- The title of a rendering. -/
def dotTitle (g : Graph) : String :=
  g.depsName?.getD "dependencies"

/-- Whether the node of a number is shown. -/
def shownAt (g : Graph) (o : DotOptions) (i : Nat) : Bool :=
  g.nodes[i]?.any o.shows

/-- The arcs between shown nodes, by definition and use. -/
def dotArcs (g : Graph) (o : DotOptions) : List Arc :=
  (g.arcs.toList.filter fun arc => g.shownAt o arc.definition && g.shownAt o arc.use).mergeSort
    fun a b => (compareLex (compareOn Arc.definition) (compareOn Arc.use) a b).isLE

/-- The whole text. -/
def dotChars (g : Graph) (o : DotOptions) : List Char :=
  "digraph \"".toList ++ Dot.escape g.dotTitle.toList ++ "\" \x7b\n".toList
    ++ (g.nodes.toList.filter o.shows).flatMap Dot.nodeLine
    ++ (g.dotArcs o).flatMap Dot.arcLine ++ "\x7d\n".toList

def dot (g : Graph) (o : DotOptions := {}) : String :=
  String.ofList (g.dotChars o)

end Graph

end DepGraph
