import DepGraph.Graph.Basic

/-!
# Checks on graphs

* `Graph.verify`: one node for each key, numbers match places, keys are well formed, implementations
  have no fingerprint, no node depends on itself, and the index has an entry for each node.
* `Graph.verifySame`: two graphs have the same nodes in the same order and the same arcs.
-/

namespace DepGraph.Graph

/-- What is wrong with a graph. -/
inductive Flaw where
  | number (found position : Nat)
  | duplicateKey (first second : Nat) (key : Key)
  | key (flaw : Key.Flaw)
  | implementationFingerprint (key : Key)
  | reflexive (key : Key)
  | indexSize (entries nodes : Nat)
  deriving DecidableEq

def Flaw.message : Flaw → String
  | .number found position => s!"bad sequence number {found} for node at position {position}"
  | .duplicateKey first second k =>
    s!"duplicate frontend keys: node {first} and node {second} are both {k.display}"
  | .key flaw => flaw.message
  | .implementationFingerprint k => s!"implementation node {k.display} carries a fingerprint"
  | .reflexive k => s!"uses should be irreflexive: {k.display}"
  | .indexSize entries nodes => s!"key index holds {entries} entries for {nodes} nodes"

/-- Checks nodes from a position on; `seen` holds the keys before it with their numbers, the latest
first. -/
def verifyNodes (position : Nat) (seen : List (Key × Nat)) : List Node → Except Flaw Unit
  | [] => .ok ()
  | node :: rest =>
    if node.number ≠ position then .error (.number node.number position)
    else
      match seen.lookup node.key with
      | some first => .error (.duplicateKey first node.number node.key)
      | none =>
        match node.key.verify with
        | .error flaw => .error (.key flaw)
        | .ok () =>
          if node.key.isImplementation ∧ node.fingerprint.isSome then
            .error (.implementationFingerprint node.key)
          else verifyNodes (position + 1) ((node.key, node.number) :: seen) rest

/-- Checks that no arc joins a node to itself. -/
def verifyArcs (g : Graph) : Except Flaw Unit :=
  match g.arcs.toList.find? fun arc => arc.definition = arc.use with
  | none => .ok ()
  | some arc => .error (.reflexive ((g.nodes[arc.use]?.map Node.key).getD default))

/-- Checks the structure of a graph; the first problem found is reported. -/
def verify (g : Graph) : Except Flaw Unit := do
  verifyNodes 0 [] g.nodes.toList
  g.verifyArcs
  if g.index.size ≠ g.nodes.size then throw (.indexSize g.index.size g.nodes.size)

/-- How two graphs differ. -/
inductive Mismatch where
  | counts (left right : Nat)
  | node (position : Nat) (left right : Node)
  | dependencies (key : Key)
  deriving DecidableEq

def Mismatch.message : Mismatch → String
  | .counts left right => s!"both graphs must have the same number of nodes: {left} vs {right}"
  | .node position left right =>
    s!"graphs differ at node {position}: {left.describe} vs {right.describe}"
  | .dependencies key => s!"graphs differ in the dependencies of {key.display}"

/-- Compares the nodes from a position on, each with its dependencies. -/
def compareNodes (g h : Graph) (position : Nat) : List (Node × Node) → Except Mismatch Unit
  | [] => .ok ()
  | (left, right) :: rest =>
    if left ≠ right then .error (.node position left right)
    else if g.definitionsOf position ≠ h.definitionsOf position then .error (.dependencies left.key)
    else g.compareNodes h (position + 1) rest

/-- Checks that another graph has the same nodes, in the same order, with the same arcs. -/
def verifySame (g h : Graph) : Except Mismatch Unit :=
  if g.nodes.size ≠ h.nodes.size then .error (.counts g.nodes.size h.nodes.size)
  else g.compareNodes h 0 (g.nodes.toList.zip h.nodes.toList)

end DepGraph.Graph
