import DepGraph.Construction
import DepGraph.Manifest.Basic

/-!
# From a manifest to a graph

What a manifest says as calls of the two construction phases.
-/

namespace DepGraph.Manifest

/-- The calls of the first phase. -/
def definitions (m : Manifest) : List Definition :=
  [.all .topLevel (m.topLevel.map .standalone),
    .all .nominal (m.nominals.map .standalone),
    .all .potentialMember (m.potentialMembers.map .standalone),
    .all .member (m.members.map fun r => .member r.nominal r.member),
    .all .dynamicLookup (m.dynamicLookups.map .standalone)]

/-- The user of a record, or the file itself. -/
def userOf (m : Manifest) (user : Option Key) : Key :=
  user.getD (Key.sourceFile m.depsName)

/-- The call for a use record. -/
def useCall (m : Manifest) (r : UseRecord) : Use :=
  .declaration r.definition (m.userOf r.user)

/-- The call for an external record. One whose fingerprint cannot be read is only remarked upon. -/
def externalCall (m : Manifest) (r : ExternalRecord) : Use :=
  let call := fun fingerprint => Use.external (Key.external r.path) (m.userOf r.user) fingerprint
  match r.fingerprint.map Fingerprint.parse with
  | none => call none
  | some (.ok f) => call (some f)
  | some (.error e) =>
    .remark (.error s!"malformed external dependency record for '{r.path}': {e.message}")

/-- The calls of the second phase. -/
def useCalls (m : Manifest) : List Use :=
  m.uses.map m.useCall ++ m.externals.map m.externalCall

/-- The options for a manifest's file, unless it has no name. -/
def options? (m : Manifest) : Option ConstructionOptions :=
  if m.depsName = "" then none
  else some
    { depsName := m.depsName
      fileFingerprint := m.wholeFileFingerprint
      hadCompilationError := m.hadCompilationError }

/-- Constructs the graph of a manifest's file. -/
def build (m : Manifest) (options : ConstructionOptions) : Except Misuse Constructed :=
  construct options m.definitions m.useCalls

end DepGraph.Manifest
