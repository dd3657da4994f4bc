import DepGraph.Files.Basic

/-!
# A file system in memory

A disk maps places to entries. A place is the list of names on the way from the top directory; a path
is followed from there or from the directory in which the work is done. Operations behave like those
of a file system with directories: everything on the way to a place has to be a directory.
-/

namespace DepGraph

structure Disk where
  /-- Everything but the top directory. -/
  entries : List (List String × Entry) := []
  /-- Where relative paths start. -/
  work : List String := []

namespace Disk

/-- What stands at a place. -/
def entry? (d : Disk) (place : List String) : Option Entry :=
  if place = [] then some .directory else d.entries.lookup place

/-- Puts an entry at a place. -/
def insert (d : Disk) (place : List String) (entry : Entry) : Disk :=
  { d with entries := d.entries.filter (·.1 ≠ place) ++ [(place, entry)] }

/-- The longest name, in bytes. -/
def maxName : Nat := 255

/-- The longest path, in bytes. -/
def maxPath : Nat := 4095

/-- Checks that a place is a directory. -/
def enter (d : Disk) (place : List String) : Except IoError Unit :=
  match d.entry? place with
  | some .directory => .ok ()
  | some (.file _) => .error .notDirectory
  | none => .error .missing

/-- Follows names from a place. Every place but the last has to be a directory. -/
def walk (d : Disk) (place : List String) : List String → Except IoError (List String)
  | [] => .ok place
  | name :: rest => do
    d.enter place
    if name = "." then walk d place rest
    else if name = ".." then walk d place.dropLast rest
    else if name.utf8ByteSize > maxName then throw .nameTooLong
    else walk d (place ++ [name]) rest

/-- Where a path starts, and the names on it. -/
def route (d : Disk) (path : String) : Except IoError (List String × List String) :=
  if path = "" then .error .missing
  else if path.toList.contains '\x00' then .error .nulInName
  else if path.utf8ByteSize > maxPath then .error .nameTooLong
  else .ok (if Path.isAbsolute path then [] else d.work, Path.pieces path)

/-- What a path leads to. A path that ends in a separator leads to a directory. -/
def lookup (d : Disk) (path : String) : Except IoError Entry := do
  let (start, names) ← d.route path
  let place ← d.walk start names
  match d.entry? place with
  | none => throw .missing
  | some .directory => return .directory
  | some (.file bytes) => if Path.endsOpen path then throw .notDirectory else return .file bytes

def isDirectory (d : Disk) (path : String) : Bool :=
  match d.lookup path with
  | .ok .directory => true
  | _ => false

/-- The directory in which the last name on a path stands, and that name; `none` for a path that ends
in a directory on the way. -/
def surroundings (d : Disk) (path : String) : Except IoError (List String × Option String) := do
  let (start, names) ← d.route path
  let around ← d.walk start names.dropLast
  d.enter around
  return (around, names.getLast?.filter fun name => name ≠ "." ∧ name ≠ "..")

/-- The place of a name in a directory. -/
def placeOf (around : List String) (name : String) : Except IoError (List String) :=
  if name.utf8ByteSize > maxName then .error .nameTooLong else .ok (around ++ [name])

/-- The place of the last name on a path, in a directory; `none` for a path without a last name. -/
def target (d : Disk) (path : String) : Except IoError (Option (List String)) := do
  match ← d.surroundings path with
  | (_, none) => return none
  | (around, some name) => return some (← placeOf around name)

/-- Creates an empty file, or empties it. A path that ends in a separator leads to no file, whatever
its last name. -/
def create (d : Disk) (path : String) : Except IoError Disk := do
  match ← d.surroundings path with
  | (_, none) => throw .isDirectory
  | (around, some name) =>
    if Path.endsOpen path then throw .isDirectory
    else
      let place ← placeOf around name
      if d.entry? place = some .directory then throw .isDirectory
      else return d.insert place (.file .empty)

/-- Gives a file its content. -/
def write (d : Disk) (path text : String) : Except IoError Disk := do
  match ← d.target path with
  | none => throw .isDirectory
  | some place => return d.insert place (.file text.toUTF8)

/-- Creates a directory in another one. -/
def createDirectory (d : Disk) (path : String) : Except IoError Disk := do
  match ← d.target path with
  | none => throw .alreadyExists
  | some place =>
    if (d.entry? place).isSome then throw .alreadyExists
    else return d.insert place .directory

/-- Creates a directory unless it is there. -/
def ensureDirectory (d : Disk) (path : String) : Except IoError Disk :=
  match d.createDirectory path with
  | .ok d => .ok d
  | .error e => if d.isDirectory path then .ok d else .error e

/-- Creates a directory and, while something on the way is missing, the directories around it, at most
`depth` of them. What has been created stays, also if the directory itself cannot be. -/
def createDirectories (d : Disk) (path : String) : (depth : Nat) → Except IoError Unit × Disk
  | 0 => (.error .missing, d)
  | depth + 1 =>
    match d.ensureDirectory path with
    | .ok d => (.ok (), d)
    | .error .missing =>
      match Path.parent? path with
      | none => (.error .missing, d)
      | some "" => attempt d
      | some parent =>
        match createDirectories d parent depth with
        | (.error e, d) => (.error e, d)
        | (.ok (), d) => attempt d
    | .error e => (.error e, d)
where
  attempt (d : Disk) : Except IoError Unit × Disk :=
    match d.ensureDirectory path with
    | .ok d => (.ok (), d)
    | .error e => (.error e, d)

/-- Performs an operation that changes the disk only when it succeeds. -/
def perform (operation : Disk → Except IoError Disk) : StateM Disk (Except IoError Unit) := do
  match operation (← get) with
  | .ok d =>
    set d
    return .ok ()
  | .error e => return .error e

/-- The file operations on a disk. -/
def files : Files (StateM Disk) where
  lookup := fun path => do return (← get).lookup path
  createDirectories := fun path => do
    let (result, d) := (← get).createDirectories path ((Path.pieces path).length + 1)
    set d
    return result
  create := fun path => perform (·.create path)
  write := fun path text => perform (·.write path text)

end Disk

end DepGraph
