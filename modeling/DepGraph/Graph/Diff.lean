import DepGraph.Graph.Basic

/-!
# Differences by key

`Graph.diff` compares two graphs of the same file by key, whatever the order of their nodes.
-/

namespace DepGraph

/-- A key whose fingerprint changed. -/
structure FingerprintChange where
  key : Key
  old : Option Fingerprint
  new : Option Fingerprint
  deriving DecidableEq

/-- Node-level differences, each list in ascending order of keys. -/
structure Diff where
  added : List Key
  removed : List Key
  changed : List FingerprintChange
  deriving DecidableEq

def Diff.isEmpty (d : Diff) : Bool :=
  d.added.isEmpty && d.removed.isEmpty && d.changed.isEmpty

/-- The fingerprint of every key. -/
def Graph.fingerprints (g : Graph) : Std.TreeMap Key (Option Fingerprint) :=
  g.nodes.foldl (fun m node => m.insert node.key node.fingerprint) ∅

/-- What happened between an old and a new graph. -/
def Graph.diff (old new : Graph) : Diff :=
  let before := old.fingerprints
  let after := new.fingerprints
  { added := after.keys.filter fun key => !before.contains key
    removed := before.keys.filter fun key => !after.contains key
    changed := before.toList.filterMap fun (key, fingerprint) =>
      match after[key]? with
      | none => none
      | some later => if later = fingerprint then none else some ⟨key, fingerprint, later⟩ }

end DepGraph
