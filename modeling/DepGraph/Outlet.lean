import DepGraph.Construction
import DepGraph.DepsFile.Notation
import DepGraph.Graph.Dot

/-!
# Where output goes

An outlet takes the files that are written. Trouble with it is reported among the diagnostics, so that
the work goes on.
-/

namespace DepGraph

/-- A place for output files. A file is created, or emptied, before anything is written to it. -/
structure Outlet (m : Type → Type) where
  create : (path : String) → m (Except Failure Unit)
  write : (path text : String) → m (Except IoError Unit)

variable {m : Type → Type} [Monad m]

namespace Outlet

/-- The outlet that takes everything and keeps nothing. -/
def discard : Outlet m := ⟨fun _ => pure (.ok ()), fun _ _ => pure (.ok ())⟩

/-- Writes a whole file. -/
def put (o : Outlet m) (path text : String) : m (Except Failure Unit) := do
  match ← o.create path with
  | .error failure => return .error failure
  | .ok () => return orFail .io (← o.write path text)

end Outlet

/-- The diagnostic for an output file that could not be written. -/
def outputTrouble (path : String) (failure : Failure) : Diagnostic :=
  .error s!"error opening '{path}' for output: {failure.message}"

/-- The diagnostics that a result for an output file gives rise to. -/
def outputRemarks (path : String) : Except Failure Unit → List Diagnostic
  | .ok () => []
  | .error failure => [outputTrouble path failure]

namespace Graph

/-- Writes the deps file of a graph. A failure is also among the diagnostics. -/
def save (g : Graph) (o : Outlet m) (path : String) : m (Except Failure Unit × List Diagnostic) := do
  let result ← o.put path (g.toJson ++ "\n")
  return (result, outputRemarks path result)

/-- Writes the dot rendering of a graph. -/
def saveDot (g : Graph) (o : Outlet m) (path : String) : m (List Diagnostic) := do
  return outputRemarks path (← o.put path (g.dot {}))

end Graph

/-- Constructs the graph of a file, and writes its dot rendering if the options ask for it. -/
def constructInto (o : Outlet m) (options : ConstructionOptions) (definitions : List Definition)
    (uses : List Use) : m (Except Misuse Constructed) := do
  match construct options definitions uses with
  | .error misuse => return .error misuse
  | .ok c =>
    if options.emitDot ∧ options.depsName ≠ "" then
      let remarks ← c.graph.saveDot o options.dotPath
      return .ok { c with diagnostics := c.diagnostics ++ remarks }
    else return .ok c

end DepGraph
