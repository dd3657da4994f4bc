import DepGraph.Graph.Basic

/-!
# Graphs for people

`Graph.dump` has a line for each node with what it depends on; `Graph.summary` counts.
-/

namespace DepGraph

/-- One line for each node, followed by the numbers of its dependencies. -/
def Graph.dump (g : Graph) : String :=
  String.join (g.nodes.toList.zipIdx.map fun (node, i) =>
    node.describe ++ " depends on:"
      ++ String.join ((g.definitionsOf i).map fun d => " " ++ toString d) ++ "\n")

/-- How many nodes and arcs a graph has. -/
structure Summary where
  depsName : Option String
  nodes : Nat
  arcs : Nat
  provides : Nat
  externals : Nat
  deriving DecidableEq

def Graph.summary (g : Graph) : Summary :=
  { depsName := g.depsName?
    nodes := g.nodes.size
    arcs := g.arcs.size
    provides := (g.nodes.toList.filter (·.provides)).length
    externals := (g.nodes.toList.filter (·.key.kind = .externalDepend)).length }

end DepGraph
