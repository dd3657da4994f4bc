import DepGraph.Graph.Basic

/-!
# What depends on a node

`Graph.reachableFrom` lists every node whose freshness depends on a start, directly or through
others, nearest first.
-/

namespace DepGraph.Graph

/-- The direct uses of a definition, the most recently added first. -/
def usersOf (g : Graph) (definition : Nat) : List Nat :=
  (g.arcs.toList.reverse.filter (·.definition = definition)).map (·.use)

/-- Takes nodes off a queue, at most `fuel` of them, and queues their users that were not `seen`. -/
def explore (g : Graph) : (fuel : Nat) → (queue seen : List Nat) → List Nat
  | fuel + 1, i :: queue, seen =>
    let fresh := (g.usersOf i).filter (· ∉ seen)
    i :: g.explore fuel (queue ++ fresh) (seen ++ fresh)
  | _, _, _ => []

/-- The start and everything that depends on it, breadth first. -/
def reachableFrom (g : Graph) (start : Nat) : Except Misuse (List Nat) :=
  if start < g.nodes.size then .ok (g.explore g.nodes.size [start] [start])
  else .error .missingNode

end DepGraph.Graph
