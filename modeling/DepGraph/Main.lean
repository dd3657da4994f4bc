import DepGraph.CommandLine

/-!
# The tool

Runs the command line on the files of the machine.
-/

namespace DepGraph

/-- How an error of the machine is reported. -/
def ioErrorOf : IO.Error → IoError
  | .noFileOrDirectory .. => .missing
  | .alreadyExists .. => .alreadyExists
  | .inappropriateType _ 20 _ => .notDirectory
  | .inappropriateType _ 21 _ => .isDirectory
  | error => .other (toString error)

/-- The result of an action on a file. -/
def attempt {α : Type} (action : IO α) : IO (Except IoError α) := do
  match ← action.toBaseIO with
  | .ok a => return .ok a
  | .error e => return .error (ioErrorOf e)

/-- The files of the machine. -/
def machineFiles : Files IO where
  lookup := fun path => do
    match ← attempt (IO.FS.readBinFile path) with
    | .error .isDirectory => return .ok .directory
    | .error e => return .error e
    | .ok bytes => return .ok (.file bytes)
  createDirectories := fun path => attempt (IO.FS.createDirAll path)
  create := fun path => attempt (IO.FS.writeFile path "")
  write := fun path text => attempt (IO.FS.writeFile path text)

end DepGraph

/-- Carries out the arguments and returns the exit code. -/
def main (arguments : List String) : IO UInt32 := do
  let outcome ← DepGraph.Request.run DepGraph.machineFiles arguments
  IO.print outcome.output
  IO.eprint outcome.remarks
  return outcome.exit.toUInt32
