import DepGraph.Files.Basic
import DepGraph.Graph.Diff
import DepGraph.Graph.Text
import DepGraph.Manifest.Build

/-!
# Commands

What the tool can be asked to do with files, each with what it prints. Commands that only look at deps
files change nothing; the others read all their input before they create any output.
-/

namespace DepGraph

inductive Command where
  | build (manifest output : String) (emitDot : Bool)
  | toYaml (input output : String)
  | fromYaml (input output : String)
  | dump (deps : String)
  | dot (deps output : String) (options : DotOptions)
  | verify (deps : String)
  | diff (old new : String) (check : Bool)

/-- How a command ended, and what it printed. -/
structure Report where
  result : Except Failure Unit
  output : String := ""
  remarks : String := ""

/-! ## As data -/

def Summary.toData (s : Summary) : Data :=
  .record [("deps_name", Data.optionalText s.depsName), ("node_count", .count s.nodes),
    ("arc_count", .count s.arcs), ("provides_count", .count s.provides),
    ("external_count", .count s.externals)]

def FingerprintChange.toData (c : FingerprintChange) : Data :=
  .record [("key", c.key.toData), ("old", Data.optionalText (c.old.map Fingerprint.text)),
    ("new", Data.optionalText (c.new.map Fingerprint.text))]

def Diff.toData (d : Diff) : Data :=
  .record [("added", .list (d.added.map Key.toData)), ("removed", .list (d.removed.map Key.toData)),
    ("fingerprint_changed", .list (d.changed.map FingerprintChange.toData))]

namespace Command

variable {m : Type → Type} [Monad m]

/-- The report of a command that failed before it printed anything. -/
def failed (failure : Failure) : Report := { result := .error failure }

/-- Diagnostics, a line for each. -/
def remarkLines (diagnostics : List Diagnostic) : String :=
  String.join (diagnostics.map fun d => d.display ++ "\n")

/-- Builds the deps file of a manifest and checks that it reads back. -/
def runBuild (files : Files m) (manifest output : String) (emitDot : Bool) : m Report := do
  match ← files.loadManifest manifest with
  | .error failure => return failed failure
  | .ok manifest =>
    match manifest.options? with
    | none => return failed ⟨[], .unnamedManifest⟩
    | some options =>
      let options := { options with outputPath := some output, emitDot }
      let outlet := files.outlet none
      match ← constructInto outlet options manifest.definitions manifest.useCalls with
      | .error misuse => return failed ⟨[], .misuse misuse⟩
      | .ok made =>
        let (saved, remarks) ← made.graph.save outlet output
        match saved with
        | .error failure => return failed failure
        | .ok () =>
          match ← files.verifyStored made.graph output with
          | .error failure => return failed failure
          | .ok () =>
            let s := made.graph.summary
            return {
              result := .ok ()
              output := s!"Wrote {output} ({s.nodes} nodes, {s.arcs} arcs)\n"
              remarks := remarkLines (made.diagnostics ++ remarks) }

/-- Writes a deps file in YAML. -/
def runToYaml (files : Files m) (input output : String) : m Report := do
  match ← files.loadGraph input with
  | .error failure => return failed failure
  | .ok g =>
    let written ← (files.outlet none).put output g.toYaml
    return { result := within "Failed to write YAML deps" written }

/-- Writes a deps file that is in YAML in JSON. -/
def runFromYaml (files : Files m) (input output : String) : m Report := do
  match ← files.readText input with
  | .error e => return failed ⟨[s!"Failed to read dependency file: {input}"], .io e⟩
  | .ok text =>
    match Graph.ofYaml text with
    | .error failure => return failed failure
    | .ok g =>
      let (written, _) ← g.save (files.outlet none) output
      return { result := within "Failed to write JSON deps" written }

/-- Prints every node. -/
def runDump (files : Files m) (deps : String) : m Report := do
  match ← files.loadGraph deps with
  | .error failure => return failed failure
  | .ok g => return { result := .ok (), output := g.dump }

/-- Writes the dot rendering. -/
def runDot (files : Files m) (deps output : String) (options : DotOptions) : m Report := do
  match ← files.loadGraph deps with
  | .error failure => return failed failure
  | .ok g =>
    match ← files.createOutput output with
    | .error failure => return failed failure
    | .ok () =>
      let written := orFail .io (← files.write output (g.dot options))
      return { result := within s!"Failed to write dot file: {output}" written }

/-- Checks the structure of a graph and prints a summary. -/
def runVerify (files : Files m) (deps : String) : m Report := do
  match ← files.loadGraph deps with
  | .error failure => return failed failure
  | .ok g =>
    match within s!"{deps} is not a valid dependency graph" (orFail .flaw g.verify) with
    | .error failure => return failed failure
    | .ok () => return { result := .ok (), output := Json.pretty g.summary.toData ++ "\n" }

/-- Prints the differences between two graphs; with `check` it fails when there are any. -/
def runDiff (files : Files m) (old new : String) (check : Bool) : m Report := do
  match ← files.loadGraph old with
  | .error failure => return failed failure
  | .ok before =>
    match ← files.loadGraph new with
    | .error failure => return failed failure
    | .ok after =>
      let diff := before.diff after
      let differ := Cause.graphsDiffer diff.added.length diff.removed.length diff.changed.length
      return {
        result := if check ∧ diff.isEmpty = false then .error ⟨[], differ⟩ else .ok ()
        output := Json.pretty diff.toData ++ "\n" }

/-- Carries out a command. -/
def run (files : Files m) : Command → m Report
  | .build manifest output emitDot => runBuild files manifest output emitDot
  | .toYaml input output => runToYaml files input output
  | .fromYaml input output => runFromYaml files input output
  | .dump deps => runDump files deps
  | .dot deps output options => runDot files deps output options
  | .verify deps => runVerify files deps
  | .diff old new check => runDiff files old new check

end Command

end DepGraph
