/-!
# Paths

A path is a text in which `/` separates components. Repeated and trailing separators do not count,
nor do components `.` other than at the very start. `fileName?` is the last component when that is a
name, `extension?` the part of it after its last point, `parent?` the path without its last
component.
-/

namespace DepGraph.Path

/-- The pieces between separators. A separator at either end gives an empty piece. -/
def split : List Char → List (List Char)
  | [] => [[]]
  | c :: rest =>
    if c = '/' then [] :: split rest
    else
      match split rest with
      | [] => [[c]]
      | piece :: more => (c :: piece) :: more

/-- The names on a path: the pieces that are not empty. -/
def pieces (path : String) : List String :=
  ((split path.toList).filter (· ≠ [])).map String.ofList

/-- Whether a path starts at the root. -/
def isAbsolute (path : String) : Bool :=
  path.toList.head? = some '/'

/-- Whether a path ends in a separator. -/
def endsOpen (path : String) : Bool :=
  path.toList.getLast? = some '/'

/-- The components of a path: a leading `.` counts, later ones do not. -/
def components (path : String) : List String :=
  match pieces path with
  | [] => []
  | first :: rest =>
    let rest := rest.filter (· ≠ ".")
    if first = "." ∧ isAbsolute path then rest else first :: rest

/-- The last component, unless the path ends in none, in `.` or in `..`. -/
def fileName? (path : String) : Option String :=
  match (components path).getLast? with
  | none => none
  | some last => if last = "." ∨ last = ".." then none else some last

/-- What follows the last point of the file name, when something stands before that point. -/
def extension? (path : String) : Option String := do
  let name ← fileName? path
  let reversed := name.toList.reverse
  let ending := reversed.takeWhile (· ≠ '.')
  match reversed.drop (ending.length + 1) with
  | [] => none
  | _ :: _ => some (String.ofList ending.reverse)

/-- Drops separators and lone points from the end of reversed characters, as long as a separator
stands before each point. -/
def trimReversed : List Char → List Char
  | '/' :: rest => trimReversed rest
  | '.' :: '/' :: rest => trimReversed rest
  | cs => cs

/-- The path without its last component; a path without components has no parent. -/
def parent? (path : String) : Option String :=
  match (components path).getLast? with
  | none => none
  | some last =>
    let reversed := trimReversed path.toList.reverse
    let before := trimReversed (reversed.drop last.length)
    some (if before.isEmpty ∧ isAbsolute path then "/" else String.ofList before.reverse)

/-- A relative path below `root`. -/
def join (root path : String) : String :=
  if isAbsolute path ∨ root = "" then path
  else if endsOpen root then root ++ path
  else root ++ "/" ++ path

end DepGraph.Path
