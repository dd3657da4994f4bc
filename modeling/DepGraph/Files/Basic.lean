import DepGraph.Manifest.Basic
import DepGraph.Outlet
import DepGraph.Path

/-!
# Files

The file operations that commands need, and what is read and written through them: deps files,
manifests, and output files with the directories that they stand in.
-/

namespace DepGraph

/-- What a path leads to. -/
inductive Entry where
  | file (bytes : ByteArray)
  | directory

instance : DecidableEq Entry
  | .file a, .file b =>
    decidable_of_iff (a.data = b.data)
      ⟨fun h => congrArg Entry.file (ByteArray.ext h), fun h => congrArg ByteArray.data (Entry.file.inj h)⟩
  | .directory, .directory => isTrue rfl
  | .file _, .directory => isFalse nofun
  | .directory, .file _ => isFalse nofun

/-- A file system. -/
structure Files (m : Type → Type) where
  lookup : (path : String) → m (Except IoError Entry)
  /-- Creates a directory and those around it, as far as they are missing. -/
  createDirectories : (path : String) → m (Except IoError Unit)
  /-- Creates a file, or empties it. -/
  create : (path : String) → m (Except IoError Unit)
  /-- Writes to an empty file. -/
  write : (path text : String) → m (Except IoError Unit)

namespace Files

variable {m : Type → Type} [Monad m]

/-- The content of a deps file: a notation is chosen by the extension. -/
def graphOfBytes (path : String) (bytes : ByteArray) : Except Failure Graph := do
  let isYaml := Path.extension? path = some "yaml" ∨ Path.extension? path = some "yml"
  if isYaml then
    let text ← within s!"YAML deps file is not UTF-8: {path}" (orFail .utf8 (Text.ofBytes bytes))
    within s!"Failed to load deps file: {path}" (Graph.ofYaml text)
  else within s!"Failed to load deps file: {path}" (Graph.ofJson bytes)

/-- Loads a deps file. An empty file is none. -/
def loadGraph (files : Files m) (path : String) : m (Except Failure Graph) := do
  match ← files.lookup path with
  | .error e => return .error ⟨[s!"Failed to open deps file: {path}"], .io e⟩
  | .ok .directory => return .error ⟨[s!"Failed to map deps file: {path}"], .io .noDevice⟩
  | .ok (.file bytes) =>
    if bytes.isEmpty then return .error ⟨[], .emptyFile path⟩
    else return graphOfBytes path bytes

/-- The text of a file. -/
def readText (files : Files m) (path : String) : m (Except IoError String) := do
  match ← files.lookup path with
  | .error e => return .error e
  | .ok .directory => return .error .isDirectory
  | .ok (.file bytes) =>
    match Text.ofBytes bytes with
    | .ok text => return .ok text
    | .error _ => return .error .notText

/-- Loads a manifest. -/
def loadManifest (files : Files m) (path : String) : m (Except Failure Manifest) := do
  match ← files.readText path with
  | .error e => return .error ⟨[s!"Failed to read manifest: {path}"], .io e⟩
  | .ok text =>
    return within s!"Failed to parse manifest JSON: {path}"
      (orFail .json (Json.readText Manifest.read (text.toList.map some)))

/-- Creates an output file, and the directory for it. -/
def createOutput (files : Files m) (path : String) : m (Except Failure Unit) := do
  let directory :=
    match Path.parent? path with
    | some parent => parent
    | none => ""
  let made ← if directory = "" then pure (.ok ()) else files.createDirectories directory
  match made with
  | .error e => return .error ⟨[s!"Failed to create directory: {directory}"], .io e⟩
  | .ok () =>
    return within s!"Failed to create output file: {path}" (orFail .io (← files.create path))

/-- The outlet that writes to a file system, relative paths below a directory if one is given. -/
def outlet (files : Files m) (root : Option String) : Outlet m :=
  let place := fun (path : String) =>
    match root with
    | some root => Path.join root path
    | none => path
  ⟨fun path => files.createOutput (place path), fun path text => files.write (place path) text⟩

/-- Reads a deps file again and checks that it holds the graph. -/
def verifyStored (files : Files m) (g : Graph) (path : String) : m (Except Failure Unit) := do
  match ← files.loadGraph path with
  | .error failure => return .error failure
  | .ok stored =>
    return within s!"{path} does not read back as written" (orFail .mismatch (g.verifySame stored))

end Files

end DepGraph
