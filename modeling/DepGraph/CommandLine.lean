import DepGraph.Command

/-!
# The command line

`Request.parse` says what a list of arguments asks for. Options may stand before, between and after
the operands of a command, each of them once; `--` ends them. `Request.run` carries a request out and
gives the exit code.
-/

namespace DepGraph

/-- What a command takes: how many operands, which options with a value and which flags. A short
option is named by its letter. -/
structure Usage where
  operands : Nat
  options : List String := []
  flags : List String := []
  deriving DecidableEq, Repr

/-- The arguments of a command, sorted out. -/
structure Arguments where
  operands : List String := []
  options : List (String × String) := []
  flags : List String := []
  deriving DecidableEq, Repr

/-- What a list of arguments asks for. -/
inductive Request where
  | help
  | version
  | command (command : Command)

/-- The flag that every command knows, and that may also stand before it. It does not change what a
command does or prints. -/
def verboseFlag : String := "verbose"

namespace Usage

/-- The option or flag that a letter stands for. -/
def ofLetter? (u : Usage) (letter : Char) : Option String :=
  if letter = 'v' then some verboseFlag
  else if letter = 'o' then u.options.find? (· = "output")
  else none

end Usage

namespace Arguments

/-- Adds an operand: there must be room for it, and it must not be empty. -/
def addOperand (a : Arguments) (u : Usage) (operand : String) : Option Arguments :=
  if operand = "" ∨ a.operands.length ≥ u.operands then none
  else some { a with operands := a.operands ++ [operand] }

/-- Adds an option that has not been given. -/
def addOption (a : Arguments) (name value : String) : Option Arguments :=
  if value = "" ∨ (a.options.lookup name).isSome then none
  else some { a with options := (name, value) :: a.options }

/-- Adds a flag that has not been given. -/
def addFlag (a : Arguments) (name : String) : Option Arguments :=
  if a.flags.contains name then none else some { a with flags := name :: a.flags }

/-- All operands are there. -/
def complete (a : Arguments) (u : Usage) : Bool :=
  a.operands.length = u.operands && u.options.all fun name => (a.options.lookup name).isSome

end Arguments

/-- What became of an argument: a request for help, more arguments, or an option whose value is the
next argument. -/
inductive Taken where
  | help
  | more (arguments : Arguments)
  | pending (option : String) (arguments : Arguments)

namespace Taken

/-- Goes on with more arguments. -/
def ofArguments : Option Arguments → Option Taken := Option.map .more

/-- An option or flag by its name, perhaps with a value. -/
def ofName (u : Usage) (a : Arguments) (name : String) (value : Option String) : Option Taken :=
  if u.options.contains name then
    match value with
    | some value => ofArguments (a.addOption name value)
    | none => some (.pending name a)
  else if value.isSome then none
  else if name = "help" then some .help
  else if name = verboseFlag ∨ u.flags.contains name then ofArguments (a.addFlag name)
  else none

/-- Letters after a dash: flags, or an option whose value is the rest of them. -/
def ofLetters (u : Usage) (a : Arguments) : List Char → Option Taken
  | [] => some (.more a)
  | letter :: rest =>
    if letter = 'h' then some .help
    else
      match u.ofLetter? letter with
      | none => none
      | some name =>
        if u.options.contains name then
          match rest with
          | [] => some (.pending name a)
          | '=' :: value => ofArguments (a.addOption name (String.ofList value))
          | value => ofArguments (a.addOption name (String.ofList value))
        else (a.addFlag name).bind fun a => ofLetters u a rest

/-- The name of a long option and the value that is attached to it. -/
def splitLong (cs : List Char) : String × Option String :=
  let (name, rest) := cs.span (· ≠ '=')
  (String.ofList name, rest.head?.map fun _ => String.ofList rest.tail)

/-- An argument while options are recognised. -/
def ofArgument (u : Usage) (a : Arguments) (argument : String) : Option Taken :=
  match argument.toList with
  | '-' :: '-' :: long =>
    let (name, value) := splitLong long
    ofName u a name value
  | '-' :: letter :: rest => ofLetters u a (letter :: rest)
  | _ => ofArguments (a.addOperand u argument)

end Taken

namespace Arguments

/-- Whether an argument can be the value of the option before it. -/
def isValue (argument : String) : Bool :=
  argument = "-" || argument.toList.head? ≠ some '-'

/-- Sorts out arguments; `none` in the result is a request for help. -/
def parse (u : Usage) (pending : Option String) (a : Arguments) :
    List String → Option (Option Arguments)
  | [] => if pending.isNone ∧ a.complete u then some (some a) else none
  | argument :: rest =>
    match pending with
    | some name =>
      if isValue argument then (a.addOption name argument).bind fun a => parse u none a rest
      else none
    | none =>
      if argument = "--" then
        match rest.foldlM (fun a operand => addOperand a u operand) a with
        | none => none
        | some a => if a.complete u then some (some a) else none
      else
        match Taken.ofArgument u a argument with
        | none => none
        | some .help => some none
        | some (.more a) => parse u none a rest
        | some (.pending name a) => parse u (some name) a rest

/-- The value of an option that is known to be there. -/
def option (a : Arguments) (name : String) : String := (a.options.lookup name).getD ""

/-- An operand that is known to be there. -/
def operand (a : Arguments) (i : Nat) : String := a.operands.getD i ""

end Arguments

/-- The commands: their names, what they take, and what they stand for. -/
def Command.table : List (String × Usage × (Arguments → Command)) :=
  [("build", ⟨1, ["output"], ["emit-dot"]⟩,
      fun a => .build (a.operand 0) (a.option "output") (a.flags.contains "emit-dot")),
    ("to-yaml", ⟨0, ["input-filename", "output-filename"], []⟩,
      fun a => .toYaml (a.option "input-filename") (a.option "output-filename")),
    ("from-yaml", ⟨0, ["input-filename", "output-filename"], []⟩,
      fun a => .fromYaml (a.option "input-filename") (a.option "output-filename")),
    ("dump", ⟨1, [], []⟩, fun a => .dump (a.operand 0)),
    ("dot", ⟨1, ["output"], ["no-externals", "no-implementations"]⟩,
      fun a => .dot (a.operand 0) (a.option "output")
        ⟨!a.flags.contains "no-externals", !a.flags.contains "no-implementations"⟩),
    ("verify", ⟨1, [], []⟩, fun a => .verify (a.operand 0)),
    ("diff", ⟨2, [], ["check"]⟩,
      fun a => .diff (a.operand 0) (a.operand 1) (a.flags.contains "check"))]

namespace Request

/-- A request for help on a command, or on the tool itself. -/
def parseHelp : List String → Option Request
  | [] => some .help
  | [name] => if name = "help" ∨ (Command.table.lookup name).isSome then some .help else none
  | _ => none

/-- The arguments of a command. -/
def parseCommand (name : String) (arguments : List String) : Option Request := do
  let (usage, build) ← Command.table.lookup name
  match ← Arguments.parse usage none {} arguments with
  | none => return .help
  | some a => return .command (build a)

/-- Letters after a dash, before the command: help and version end the search, and verbosity is asked
for at most once. -/
def parseLetters (verbose : Bool) : List Char → Option (Request ⊕ Bool)
  | [] => some (.inr verbose)
  | letter :: rest =>
    if letter = 'h' then some (.inl .help)
    else if letter = 'V' then some (.inl .version)
    else if letter = 'v' ∧ verbose = false then parseLetters true rest
    else none

/-- What arguments ask for; `none` if they make no sense. -/
def parseFrom (verbose : Bool) : List String → Option Request
  | [] => none
  | argument :: rest =>
    match argument.toList with
    | '-' :: '-' :: long =>
      let name := String.ofList long
      if name = "help" then some .help
      else if name = "version" then some .version
      else if name = verboseFlag ∧ verbose = false then parseFrom true rest
      else none
    | '-' :: letter :: more =>
      match parseLetters verbose (letter :: more) with
      | none => none
      | some (.inl request) => some request
      | some (.inr verbose) => parseFrom verbose rest
    | _ => if argument = "help" then parseHelp rest else parseCommand argument rest

def parse (arguments : List String) : Option Request := parseFrom false arguments

end Request

/-- What a run of the tool leaves behind: its exit code and what it printed. -/
structure Outcome where
  exit : Nat
  output : String := ""
  remarks : String := ""
  deriving DecidableEq, Repr

/-- The name of the tool and its version. -/
def versionLine : String := "depgraph-tool 0.1.0\n"

/-- The commands and what they take. -/
def usageText : String :=
  "Usage: depgraph-tool [-v] COMMAND\n\n"
    ++ "  build MANIFEST -o OUTPUT [--emit-dot]\n"
    ++ "  to-yaml --input-filename INPUT --output-filename OUTPUT\n"
    ++ "  from-yaml --input-filename INPUT --output-filename OUTPUT\n"
    ++ "  dump DEPS\n"
    ++ "  dot DEPS -o OUTPUT [--no-externals] [--no-implementations]\n"
    ++ "  verify DEPS\n"
    ++ "  diff OLD NEW [--check]\n"
    ++ "  help [COMMAND]\n"

/-- The outcome of a command. -/
def Report.outcome (r : Report) : Outcome :=
  match r.result with
  | .ok () => ⟨0, r.output, r.remarks⟩
  | .error failure => ⟨1, r.output, r.remarks ++ s!"Error: {failure.headline}\n"⟩

namespace Request

variable {m : Type → Type} [Monad m]

/-- Carries out what arguments ask for. -/
def run (files : Files m) (arguments : List String) : m Outcome := do
  match parse arguments with
  | none => return ⟨2, "", usageText⟩
  | some .help => return ⟨0, usageText, ""⟩
  | some .version => return ⟨0, versionLine, ""⟩
  | some (.command asked) => return (← asked.run files).outcome

end Request

end DepGraph
