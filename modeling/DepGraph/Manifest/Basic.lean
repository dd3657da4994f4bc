import DepGraph.Declaration
import DepGraph.DepsFile.Basic
import DepGraph.Json.Decode
import DepGraph.Json.Writer

/-!
# Manifests

A manifest lists what one compiled file defines and uses, in source order. It is written as JSON; its
compact text stands for the file's content when neither a fingerprint nor the source text is given.
-/

namespace DepGraph

/-- A member and the nominal that it belongs to. -/
structure MemberRecord where
  nominal : Declaration
  member : Declaration
  deriving DecidableEq

/-- Something used, and what uses it; without a user it is the whole file. -/
structure UseRecord where
  definition : Key
  user : Option Key
  deriving DecidableEq

/-- Something used that was compiled elsewhere, perhaps with its fingerprint in digits. -/
structure ExternalRecord where
  path : String
  fingerprint : Option String
  user : Option Key
  deriving DecidableEq

structure Manifest where
  depsName : String
  fileFingerprint : Option Fingerprint := none
  sourceText : Option String := none
  hadCompilationError : Bool := false
  topLevel : List Declaration := []
  nominals : List Declaration := []
  potentialMembers : List Declaration := []
  members : List MemberRecord := []
  dynamicLookups : List Declaration := []
  uses : List UseRecord := []
  externals : List ExternalRecord := []
  deriving DecidableEq

/-! ## As data -/

def Declaration.toData (d : Declaration) : Data :=
  .record ([("name", .text d.name), ("kind", .text d.kind.name)]
    ++ Data.optionalField "extended" (d.kind.extended?.map .text)
    ++ Data.optionalField "mangled_name" (d.mangledName.map .text)
    ++ Data.optionalField "body_fingerprint" (d.bodyFingerprint.map Fingerprint.toData))

def MemberRecord.toData (r : MemberRecord) : Data :=
  .record [("nominal", r.nominal.toData), ("member", r.member.toData)]

def UseRecord.toData (r : UseRecord) : Data :=
  .record (("def", r.definition.toData) :: Data.optionalField "user" (r.user.map Key.toData))

def ExternalRecord.toData (r : ExternalRecord) : Data :=
  .record (("path", .text r.path) :: Data.optionalField "fingerprint" (r.fingerprint.map .text)
    ++ Data.optionalField "user" (r.user.map Key.toData))

def Manifest.toData (m : Manifest) : Data :=
  .record ([("deps_name", .text m.depsName)]
    ++ Data.optionalField "file_fingerprint" (m.fileFingerprint.map Fingerprint.toData)
    ++ Data.optionalField "source_text" (m.sourceText.map .text)
    ++ [("had_compilation_error", .flag m.hadCompilationError),
      ("top_level", .list (m.topLevel.map Declaration.toData)),
      ("nominals", .list (m.nominals.map Declaration.toData)),
      ("potential_members", .list (m.potentialMembers.map Declaration.toData)),
      ("members", .list (m.members.map MemberRecord.toData)),
      ("dynamic_lookups", .list (m.dynamicLookups.map Declaration.toData)),
      ("uses", .list (m.uses.map UseRecord.toData)),
      ("external_dependencies", .list (m.externals.map ExternalRecord.toData))])

/-- The text that stands for the whole manifest. -/
def Manifest.canonical (m : Manifest) : String := Json.compact m.toData

/-- The given fingerprint, else that of the source text, else that of the manifest itself. -/
def Manifest.wholeFileFingerprint (m : Manifest) : Fingerprint :=
  match m.fileFingerprint, m.sourceText with
  | some f, _ => f
  | none, some text => .ofText text
  | none, none => .ofText m.canonical

/-! ## From JSON -/

open Json (Tree Fault)

/-- How many containers may stand inside one another when a value is kept for later. -/
def maxNesting : Nat := 127

/-- The parts of a declaration that have a name of their own. -/
def Declaration.fields : Fields Tree (Except Fault) (String × Option String × Option Fingerprint) :=
  Fields.start (fun name mangled fingerprint => (name, mangled, fingerprint))
    |>.required "name" DataTree.text
    |>.defaulted "mangled_name" (DataTree.optional DataTree.text) none
    |>.defaulted "body_fingerprint" (DataTree.optional DataTree.fingerprint) none

/-- The index of a kind: its name, or the index itself. -/
def DeclarationKind.readIndex : Tree → Except Fault Nat
  | .number n =>
    match n.value with
    | .error stop => .error (.stop stop)
    | .ok (.integer i) =>
      if i < 0 then .error (Tree.unexpected "variant identifier" (.number n))
      else if i < DeclarationKind.names.length then .ok i.toNat
      else
        let expected := s!"variant index 0 <= i < {DeclarationKind.names.length}"
        .error (.mismatch (.value (.quantity (.integer i)) expected))
    | .ok _ => .error (Tree.unexpected "variant identifier" (.number n))
  | tree => do
    let name ← tree.textAs "variant identifier"
    Tree.pickName DeclarationKind.names (DeclarationKind.names.idxOf? ·) name

/-- The first of several values of a field, which has to be there and must not be repeated. A value
that cannot be read is reported before a repetition. -/
def readOnce {α : Type} (field : String) (read : Tree → Except Fault α) :
    List (String × Tree) → Except Fault α
  | [] => .error (.mismatch (.missingField field))
  | (_, tree) :: rest => do
    let value ← read tree
    if rest.isEmpty then return value else throw (.mismatch (.duplicateField field))

/-- The kind of a declaration, from the members that are kept for it. -/
def DeclarationKind.read (kept : List (String × Tree)) : Except Fault DeclarationKind := do
  let index ← readOnce "kind" readIndex (kept.filter (·.1 = "kind"))
  match simple[index]? with
  | some kind => return kind
  | none =>
    return .extension (← readOnce "extended" DataTree.text (kept.filter (·.1 = "extended")))

/-- A declaration is an object. Members without a name of their own are kept, as long as they nest no
more than `room` containers; they hold the kind and what belongs to it. -/
def Declaration.read (room : Nat) : Tree → Except Fault Declaration
  | .object members => do
    let keep := fun (kept : List (String × Tree)) (name : String) (value : Tree) =>
      (value.settle room).map fun () => kept ++ [(name, value)]
    let (draft, kept) ← members.collect fields keep fields.blank []
    let (name, mangledName, bodyFingerprint) ←
      fields.finish (fun field => .mismatch (.missingField field)) draft
    let kind ← DeclarationKind.read kept
    return { name, kind, mangledName, bodyFingerprint }
  | other => .error (other.unexpected "struct Decl")

/-- A declaration that is a whole text. -/
def Declaration.readAlone : Tree → Except Fault Declaration :=
  Declaration.read (maxNesting - 1)

def MemberRecord.fields : Fields Tree (Except Fault) MemberRecord :=
  Fields.start MemberRecord.mk
    |>.required "nominal" (Declaration.read (maxNesting - 4))
    |>.required "member" (Declaration.read (maxNesting - 4))

def UseRecord.fields : Fields Tree (Except Fault) UseRecord :=
  Fields.start UseRecord.mk
    |>.required "def" Key.read
    |>.defaulted "user" (DataTree.optional Key.read) none

def ExternalRecord.fields : Fields Tree (Except Fault) ExternalRecord :=
  Fields.start ExternalRecord.mk
    |>.required "path" DataTree.text
    |>.defaulted "fingerprint" (DataTree.optional DataTree.text) none
    |>.defaulted "user" (DataTree.optional Key.read) none

/-- The declarations of one list of a manifest. -/
def Declaration.readList : Tree → Except Fault (List Declaration) :=
  DataTree.list (Declaration.read (maxNesting - 3))

def Manifest.fields : Fields Tree (Except Fault) Manifest :=
  Fields.start Manifest.mk
    |>.required "deps_name" DataTree.text
    |>.defaulted "file_fingerprint" (DataTree.optional DataTree.fingerprint) none
    |>.defaulted "source_text" (DataTree.optional DataTree.text) none
    |>.defaulted "had_compilation_error" DataTree.flag false
    |>.defaulted "top_level" Declaration.readList []
    |>.defaulted "nominals" Declaration.readList []
    |>.defaulted "potential_members" Declaration.readList []
    |>.defaulted "members" (DataTree.list (DataTree.record "MemberRecord" MemberRecord.fields)) []
    |>.defaulted "dynamic_lookups" Declaration.readList []
    |>.defaulted "uses" (DataTree.list (DataTree.record "UseRecord" UseRecord.fields)) []
    |>.defaulted "external_dependencies"
      (DataTree.list (DataTree.record "ExternalDependencyRecord" ExternalRecord.fields)) []

def Manifest.read : Tree → Except Fault Manifest :=
  DataTree.record "FileManifest" Manifest.fields

end DepGraph
