import DepGraph.DepsFile.Basic
import DepGraph.Graph.Verify
import DepGraph.IoError
import DepGraph.Json.Decode
import DepGraph.Yaml.Decode

/-!
# Failures

Why an operation on files and texts did not succeed: a cause, and what was being done when it arose,
the widest task first.
-/

namespace DepGraph

inductive Cause where
  | json (fault : Json.Fault)
  | yaml (fault : Yaml.Fault)
  | io (error : IoError)
  | utf8 (error : InvalidUtf8)
  | file (problem : DepsFile.Problem)
  | flaw (flaw : Graph.Flaw)
  | mismatch (mismatch : Graph.Mismatch)
  | misuse (misuse : Misuse)
  | emptyFile (path : String)
  | unnamedManifest
  | graphsDiffer (added removed changed : Nat)
  /-- An output was refused before anything was written. -/
  | refused (reason : String)
  deriving DecidableEq

/-- The words for a cause. Where a text is not JSON or YAML there are none. -/
def Cause.message? : Cause → Option String
  | .json (.stop _) => none
  | .json (.mismatch found) => some found.message
  | .yaml _ => none
  | .io error => some error.message
  | .utf8 error => some error.message
  | .file problem => some problem.message
  | .flaw found => some found.message
  | .mismatch found => some found.message
  | .misuse _ => none
  | .emptyFile path => some s!"deps file is empty: {path}"
  | .unnamedManifest => some "manifest has an empty deps_name"
  | .graphsDiffer added removed changed =>
    some s!"graphs differ: {added} added, {removed} removed, {changed} changed"
  | .refused reason => some reason

structure Failure where
  contexts : List String := []
  cause : Cause
  deriving DecidableEq

namespace Failure

/-- A failure while a wider task was being done. -/
def within (context : String) (f : Failure) : Failure :=
  { f with contexts := context :: f.contexts }

/-- The tasks and the cause, the widest first. -/
def parts (f : Failure) : List String :=
  f.contexts ++ f.cause.message?.toList

/-- All there is to say about a failure. -/
def message (f : Failure) : String := ": ".intercalate f.parts

/-- The first thing to say about a failure. -/
def headline (f : Failure) : String := f.parts.headD ""

end Failure

/-- A result as part of a wider task. -/
def within {α : Type} (context : String) : Except Failure α → Except Failure α
  | .ok a => .ok a
  | .error f => .error (f.within context)

/-- A result whose error is the cause of a failure. -/
def orFail {ε α : Type} (cause : ε → Cause) : Except ε α → Except Failure α
  | .ok a => .ok a
  | .error e => .error ⟨[], cause e⟩

end DepGraph
