import DepGraph.Diagnostic
import DepGraph.Declaration
import DepGraph.Graph.Verify

/-!
# Constructing the graph of a file

The graph of one file is made in two phases: first everything the file defines, then everything it
uses. The file's own node comes first, and every interface that the file defines depends on it.

* `Construction.define`, `Construction.use`: one call of either phase.
* `construct`: both phases, then a check of the whole.
-/

namespace DepGraph

/-- What is known of the file as a whole. After a compilation error the fingerprints of declarations
are not to be trusted and are dropped. -/
structure ConstructionOptions where
  depsName : String
  fileFingerprint : Fingerprint
  hadCompilationError : Bool := false
  outputPath : Option String := none
  emitDot : Bool := false

/-- Where the dot rendering goes: beside the deps file. -/
def ConstructionOptions.dotPath (o : ConstructionOptions) : String :=
  o.outputPath.getD o.depsName ++ ".dot"

/-- A call of the first phase: one key, or all entities of a kind. -/
inductive Definition where
  | one (key : Key) (fingerprint : Option Fingerprint)
  | all (kind : Kind) (entities : List Entity)

/-- A call of the second phase: something used, something used that was compiled elsewhere, or a
remark. -/
inductive Use where
  | declaration (definition use : Key)
  | external (definition use : Key) (fingerprint : Option Fingerprint)
  | remark (diagnostic : Diagnostic)

/-- A graph under construction. -/
structure Construction where
  graph : Graph := .empty
  diagnostics : List Diagnostic := []
  dropFingerprints : Bool := false

namespace Construction

/-- A fingerprint, unless fingerprints are dropped. -/
def trusted (c : Construction) (fingerprint : Option Fingerprint) : Option Fingerprint :=
  if c.dropFingerprints then none else fingerprint

/-- Adds both sides of a declaration, given by either, and makes its interface depend on the file. The
file's own node is not a declaration. -/
def defineKey (c : Construction) (key : Key) (fingerprint : Option Fingerprint) :
    Except Misuse (Construction × Option (Nat × Nat)) := do
  if key.kind = .sourceFileProvide then return (c, none)
  let (graph, pair) ← c.graph.upsertPair key.interface (c.trusted fingerprint)
  match graph.sourceFile? with
  | none => return ({ c with graph }, some pair)
  | some file =>
    let graph ← graph.addArc file pair.1
    return ({ c with graph }, some pair)

/-- Adds entities one by one. -/
def defineAll (c : Construction) (kind : Kind) : List Entity → Except Misuse Construction
  | [] => .ok c
  | entity :: rest => do
    let (c, _) ← c.defineKey (entity.key kind) entity.fingerprint?
    c.defineAll kind rest

/-- One call of the first phase, with the pair of nodes that a single key gives. -/
def define (c : Construction) : Definition → Except Misuse (Construction × Option (Nat × Nat))
  | .one key fingerprint => c.defineKey key fingerprint
  | .all kind entities => (c.defineAll kind entities).map (·, none)

/-- The warning about a user that the file does not define. -/
def undefinedUser (key : Key) : Diagnostic :=
  .warning s!"use {key.display} was never defined in this file; treating it as always changed"

/-- Makes the node of `use` depend on a node. A user that is not there is provided. -/
def linkUse (c : Construction) (definition : Nat) (use : Key) : Except Misuse Construction :=
  match c.graph.find? use with
  | some i => do return { c with graph := ← c.graph.addArc definition i }
  | none => do
    let (graph, i) ← c.graph.upsert use none true
    return { c with
      graph := ← graph.addArc definition i
      diagnostics := c.diagnostics ++ [undefinedUser use] }

/-- One call of the second phase. What is used gets a node, with the fingerprint of something compiled
elsewhere if the node is new. -/
def use (c : Construction) : Use → Except Misuse Construction
  | .declaration definition user => do
    let (graph, i) ← c.graph.upsert definition none false
    { c with graph }.linkUse i user
  | .external definition user fingerprint => do
    let (graph, i) ← c.graph.upsert definition (c.trusted fingerprint) false
    { c with graph }.linkUse i user
  | .remark diagnostic => .ok { c with diagnostics := c.diagnostics ++ [diagnostic] }

/-- All calls of the first phase, with the result and the graph after each. -/
def defineEach (c : Construction) :
    List Definition → Except Misuse (Construction × List (Option (Nat × Nat) × Graph))
  | [] => .ok (c, [])
  | definition :: rest => do
    let (c, pair) ← c.define definition
    let (last, log) ← c.defineEach rest
    return (last, (pair, c.graph) :: log)

/-- All calls of the second phase, with the number of diagnostics and the graph after each. -/
def useEach (c : Construction) : List Use → Except Misuse (Construction × List (Nat × Graph))
  | [] => .ok (c, [])
  | use :: rest => do
    let c ← c.use use
    let (last, log) ← c.useEach rest
    return (last, (c.diagnostics.length, c.graph) :: log)

/-- The construction with only the file's own node. -/
def begin (options : ConstructionOptions) : Except Misuse Construction := do
  let (graph, _) ← Graph.empty.upsert (Key.sourceFile options.depsName)
    (some options.fileFingerprint) true
  return { graph, dropFingerprints := options.hadCompilationError }

/-- Reports what is wrong with the finished graph, if anything is. -/
def check (c : Construction) (depsName : String) : Construction :=
  match c.graph.verify with
  | .ok () => c
  | .error flaw =>
    let message := s!"malformed dependency graph for {depsName}: {flaw.message}"
    { c with diagnostics := c.diagnostics ++ [.error message] }

end Construction

/-- A finished construction, with what each call of the two phases did. -/
structure Constructed where
  graph : Graph
  diagnostics : List Diagnostic
  defined : List (Option (Nat × Nat) × Graph) := []
  used : List (Nat × Graph) := []

/-- Constructs the graph of a file. Without a deps file name there is none. -/
def construct (options : ConstructionOptions) (definitions : List Definition) (uses : List Use) :
    Except Misuse Constructed := do
  if options.depsName = "" then
    let missing := Diagnostic.error "cannot build a dependency graph without a deps file name"
    return { graph := .empty, diagnostics := [missing] }
  let c ← Construction.begin options
  let (c, defined) ← c.defineEach definitions
  let (c, used) ← c.useEach uses
  let c := c.check options.depsName
  return { graph := c.graph, diagnostics := c.diagnostics, defined, used }

end DepGraph
