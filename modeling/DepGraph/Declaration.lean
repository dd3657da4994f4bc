import DepGraph.Fingerprint
import DepGraph.Key

/-!
# Declarations

The parts of a declaration that matter for dependency keys: its name, what it declares, the mangled
name of the nominal that it denotes or extends, and the fingerprint of its body. An entity is a
declaration on its own or a member seen through its nominal; `Entity.key` says which key an entity of
each kind has, `Entity.fingerprint?` which fingerprint it brings.
-/

namespace DepGraph

/-- What a declaration declares. -/
inductive DeclarationKind where
  | function
  | storage
  | operator
  | precedenceGroup
  | typeAlias
  | structType
  | enumType
  | classType
  | protocolType
  /-- An extension of the nominal with the given mangled name. -/
  | extension (extended : String)
  deriving DecidableEq, Repr

namespace DeclarationKind

/-- The names in files, in order. -/
def names : List String :=
  ["function", "variable", "operator", "precedence_group", "type_alias", "struct", "enum", "class",
    "protocol", "extension"]

/-- The place in `names`. -/
def index : DeclarationKind → Nat
  | function => 0
  | storage => 1
  | operator => 2
  | precedenceGroup => 3
  | typeAlias => 4
  | structType => 5
  | enumType => 6
  | classType => 7
  | protocolType => 8
  | extension _ => 9

/-- The kinds other than extensions, in order. -/
def simple : List DeclarationKind :=
  [function, storage, operator, precedenceGroup, typeAlias, structType, enumType, classType,
    protocolType]

/-- The name in files. -/
def name : DeclarationKind → String
  | function => "function"
  | storage => "variable"
  | operator => "operator"
  | precedenceGroup => "precedence_group"
  | typeAlias => "type_alias"
  | structType => "struct"
  | enumType => "enum"
  | classType => "class"
  | protocolType => "protocol"
  | extension _ => "extension"

/-- The mangled name of the extended nominal. -/
def extended? : DeclarationKind → Option String
  | extension extended => some extended
  | _ => none

/-- Nominal types. -/
def isNominal : DeclarationKind → Bool
  | structType | enumType | classType | protocolType => true
  | _ => false

/-- Nominal types and extensions: they own members and may have a body fingerprint. -/
def isIterableContext (k : DeclarationKind) : Bool :=
  k.isNominal || k.extended?.isSome

end DeclarationKind

structure Declaration where
  name : String
  kind : DeclarationKind
  mangledName : Option String := none
  bodyFingerprint : Option Fingerprint := none
  deriving DecidableEq

/-- The name of the nominal that a declaration denotes or extends. -/
def Declaration.nominalName (d : Declaration) : String :=
  match d.kind with
  | .extension extended => extended
  | _ => d.mangledName.getD d.name

/-- Something defined in a file. -/
inductive Entity where
  | standalone (declaration : Declaration)
  | member (nominal member : Declaration)
  deriving DecidableEq

namespace Entity

/-- The declaration whose nominal gives the context. -/
def nominal : Entity → Declaration
  | standalone d => d
  | member n _ => n

/-- The declaration that gives the name. -/
def named : Entity → Declaration
  | standalone d => d
  | member _ m => m

/-- The context of the entity's key of a kind. Members are only seen through their nominal. -/
def context (kind : Kind) (e : Entity) : String :=
  match kind, e with
  | .nominal, e | .potentialMember, e => e.nominal.nominalName
  | .member, member n _ => n.nominalName
  | _, _ => ""

/-- The name in the entity's key of a kind. -/
def name (kind : Kind) (e : Entity) : String :=
  match kind, e with
  | .topLevel, e | .dynamicLookup, e => e.named.name
  | .member, member _ m => m.name
  | _, _ => ""

/-- The interface key of an entity as an instance of a kind. -/
def key (kind : Kind) (e : Entity) : Key :=
  ⟨kind, .interface, e.context kind, e.name kind⟩

/-- The fingerprint that an entity brings. Members never have one: any change of a nominal's members
changes that whole context. -/
def fingerprint? : Entity → Option Fingerprint
  | standalone d => if d.kind.isIterableContext then d.bodyFingerprint else none
  | member _ _ => none

end Entity

/-- A step in making up a key. -/
inductive KeyStep where
  | context (entity : Entity)
  | name (entity : Entity)
  | rawContext (context : String)
  | rawName (name : String)

/-- A key made up step by step; a later step overrides an earlier one. -/
def KeyStep.apply (k : Key) : KeyStep → Key
  | .context e => { k with context := e.context k.kind }
  | .name e => { k with name := e.name k.kind }
  | .rawContext s => { k with context := s }
  | .rawName s => { k with name := s }

/-- The key that steps make from an empty one. -/
def Key.build (kind : Kind) (aspect : Aspect) (steps : List KeyStep) : Key :=
  steps.foldl KeyStep.apply ⟨kind, aspect, "", ""⟩

end DepGraph
