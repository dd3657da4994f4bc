/-!
# Diagnostics

Remarks that come up while a graph is constructed or written; they never stop the work.
-/

namespace DepGraph

inductive Severity where
  | note
  | warning
  | error
  deriving DecidableEq, Repr

def Severity.label : Severity → String
  | .note => "note"
  | .warning => "warning"
  | .error => "error"

structure Diagnostic where
  severity : Severity
  message : String
  deriving DecidableEq, Repr

def Diagnostic.display (d : Diagnostic) : String :=
  s!"{d.severity.label}: {d.message}"

def Diagnostic.warning (message : String) : Diagnostic := ⟨.warning, message⟩

def Diagnostic.error (message : String) : Diagnostic := ⟨.error, message⟩

/-- Whether one of the diagnostics is an error. -/
def hadAnyError (diagnostics : List Diagnostic) : Bool :=
  diagnostics.any (·.severity = .error)

end DepGraph
